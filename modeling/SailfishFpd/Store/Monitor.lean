import SailfishFpd.Store.Listing
import SailfishFpd.Store.Register

/-!
# Reading along

A client that hears all calls, answers and signals can check them against what
it knows: the names in the list and the operation that is pending. `View` is
what it knows, and `View.follow` what it makes of the next thing it hears, if
that fits. `history_followed` says that everything fits, and that the client
knows the list and the state of the daemon.
-/

namespace SailfishFpd

open FPDCommunity

/-- What a client knows. The effect of the pending operation is being told while it is `telling`. -/
structure View where
  names : List String
  pending : Option Call := none
  telling : Bool := false
  deriving DecidableEq

namespace View

def Admits (v : View) : Call → Prop
  | .Enroll finger => finger ∉ v.names
  | .Remove finger => finger ∈ v.names
  | .Identify => v.names ≠ []
  | .Verify | .Clear => True
  | .GetState | .GetAll | .Abort => False

instance (v : View) : (c : Call) → Decidable (v.Admits c)
  | .Enroll finger => inferInstanceAs (Decidable (finger ∉ v.names))
  | .Remove finger => inferInstanceAs (Decidable (finger ∈ v.names))
  | .Identify => inferInstanceAs (Decidable (v.names ≠ []))
  | .Verify | .Clear => isTrue trivial
  | .GetState | .GetAll | .Abort => isFalse id

/-- `none`: that is not what can be heard now. -/
def follow (v : View) : Seen → Option View
  | .accepted c =>
    if v.pending = none ∧ v.Admits c then some { v with pending := some c } else none
  | .change (.added name) =>
    if v.pending = some (.Enroll name) ∧ ¬ v.telling then
      some { v with names := name :: v.names, telling := true }
    else none
  | .change (.removed name) =>
    if name ∈ v.names ∧
        (v.pending = some (.Remove name) ∧ ¬ v.telling ∨ v.pending = some .Clear) then
      some { v with names := v.names.erase name, telling := true }
    else none
  | .change .listed =>
    match v.pending with
    -- a `Clear` is told name by name, and may have none to tell
    | some .Clear => if v.names = [] then some { names := [] } else none
    | _ => if v.telling then some { names := v.names } else none
  | .identified name =>
    if name ∈ v.names ∧ (v.pending = none ∨ v.pending = some .Identify) then
      some { v with pending := none }
    else none
  | .ended => if v.telling then none else some { v with pending := none }
  | .listing names => if names.Perm v.names ∧ ¬ v.telling then some v else none

end View

/-! ## What a register does -/

namespace Register

/-- The edit is one that the pending operation makes. -/
def Pends (r : Register) : Edit → Prop
  | .add finger name => r.pending = some (.Enroll name) ∧ finger ∉ r.fingers
  | .drop finger => ∃ name, r.pending = some (.Remove name) ∧ r.fingers[finger]? = some name
  | .wipe => r.pending = some .Clear
  | .keep | .load _ => False

/-- The steps of a register by what is seen of them, with the fingers and the operation after. -/
inductive Shown (r : Register) : FingerMap → Option Call → List Seen → Prop where
  | skip : Shown r r.fingers r.pending []
  | accept {c : Call} (hr : r.pending = none) (hc : r.Admits c) :
    Shown r r.fingers (some c) [.accepted c]
  | refuse {c : Call} (hr : r.pending = none) (hc : r.Admits c) :
    Shown r r.fingers none [.accepted c, .ended]
  | effect {e : Edit} (he : r.Pends e) :
    Shown r (e.apply r.fingers) none ((e.changes r.fingers).map .change)
  | identify {name : String} (hn : name ∈ FingerMap.values r.fingers)
    (hr : r.pending = none ∨ r.pending = some .Identify) :
    Shown r r.fingers none [.identified name]
  | ended : Shown r r.fingers none [.ended]
  | list : Shown r r.fingers r.pending [.listing (FingerMap.values r.fingers)]

theorem shown (r : Register) (j : RegisterInput) :
    r.Shown (register.step r j).1.fingers (register.step r j).1.pending (register.step r j).2 := by
  cases j with
  | accept c =>
    by_cases hc : r.pending = none ∧ r.Admits c
    · rw [register_accept hc.1 hc.2]
      exact .accept hc.1 hc.2
    · rw [show register.step r (.accept c) = (r, []) from if_neg hc]
      exact .skip
  | refuse c =>
    by_cases hc : r.pending = none ∧ r.Admits c
    · rw [register_refuse hc.1 hc.2, show r.pending = none from hc.1]
      exact .refuse hc.1 hc.2
    · rw [show register.step r (.refuse c) = (r, []) from if_neg hc]
      exact .skip
  | enrolled finger =>
    simp only [register, step]
    split
    · next name hr =>
      split
      · exact .skip
      · next hf => exact .effect (e := .add finger name) ⟨hr, hf⟩
    · exact .skip
  | removed finger =>
    simp only [register, step]
    split
    · next name hr =>
      split
      · next hf => exact .effect (e := .drop finger) ⟨name, hr, hf⟩
      · exact .skip
    · exact .skip
  | cleared =>
    simp only [register, step]
    split
    · next hr => exact .effect (e := .wipe) hr
    · exact .skip
  | identified finger =>
    simp only [register, step]
    split
    · next name hf =>
      split
      · next hr => exact .identify (FingerMap.mem_values.mpr ⟨finger, hf⟩) (.inr hr)
      · exact .skip
    · exact .skip
  | rematched finger =>
    simp only [register, step]
    split
    · next name hf =>
      split
      · next hr =>
        rw [show r.pending = none from hr.1]
        exact .identify (FingerMap.mem_values.mpr ⟨finger, hf⟩) (.inl hr.1)
      · exact .skip
    · exact .skip
  | giveUp alarm =>
    by_cases hr : r.pending = none
    · rw [show register.step r (.giveUp alarm) = (r, []) from if_pos hr]
      exact .skip
    · rw [register_giveUp hr]
      exact .ended
  | alarm =>
    by_cases hr : r.alarm = true
    · rw [register_alarm hr]
      exact .ended
    · rw [show register.step r .alarm = (r, []) from if_neg hr]
      exact .skip
  | list => exact .list

/-- The client knows the register: all but which finger is whose. -/
structure Shows (r : Register) (v : View) : Prop where
  names : v.names.Perm (FingerMap.values r.fingers)
  pending : v.pending = r.pending
  telling : v.telling = false

end Register

/-! ## The client follows the register -/

section Follows

variable {r : Register} {v : View}

theorem Register.Shows.admits (h : r.Shows v) (c : Call) : v.Admits c ↔ r.Admits c := by
  cases c with
  | Enroll finger => exact not_congr h.names.mem_iff
  | Remove finger => exact h.names.mem_iff
  | Identify =>
    refine not_congr ?_
    rw [← FingerMap.length_values, ← h.names.length_eq, List.length_eq_zero_iff]
  | _ => exact .rfl

/-- The names of a `Clear` are told one by one. -/
theorem follow_removed (l : List String) {names : List String} (hl : names.Perm l)
    (telling : Bool) :
    ∃ telling', (l.map fun name => Seen.change (.removed name)).foldlM View.follow
      { names, pending := some .Clear, telling } =
        some { names := [], pending := some .Clear, telling := telling' } := by
  induction l generalizing names telling with
  | nil =>
    obtain rfl := List.perm_nil.mp hl
    exact ⟨telling, rfl⟩
  | cons name l ih =>
    have hname : name ∈ names := hl.mem_iff.mpr List.mem_cons_self
    have hrest : (names.erase name).Perm l := by simpa using hl.erase name
    obtain ⟨telling', h⟩ := ih hrest true
    refine ⟨telling', ?_⟩
    rw [List.map_cons, List.foldlM_cons]
    simpa [View.follow, hname] using h

/-- The effect of the pending operation is what the client waits for. -/
theorem follow_effect (h : r.Shows v) {e : Edit} (he : r.Pends e) :
    ∃ names, ((e.changes r.fingers).map Seen.change).foldlM View.follow v = some { names } ∧
      names.Perm (FingerMap.values (e.apply r.fingers)) := by
  obtain ⟨names, pending, telling⟩ := v
  obtain ⟨hnames, hpending, htelling⟩ := h
  cases e with
  | add finger name =>
    obtain ⟨hr, hf⟩ := he
    refine ⟨name :: names, ?_, ?_⟩
    · simp_all [Edit.changes, View.follow]
    · exact (hnames.cons name).trans (FingerMap.values_insert hf name).symm
  | drop finger =>
    obtain ⟨name, hr, hf⟩ := he
    have hvalues := FingerMap.values_erase hf
    have hname : name ∈ names := (hnames.trans hvalues).mem_iff.mpr List.mem_cons_self
    refine ⟨names.erase name, ?_, ?_⟩
    · simp_all [Edit.changes, View.follow]
    · show (names.erase name).Perm (FingerMap.values (r.fingers.erase finger))
      simpa using (hnames.trans hvalues).erase name
  | wipe =>
    have hr : r.pending = some .Clear := he
    obtain ⟨telling', htold⟩ := follow_removed (FingerMap.values r.fingers) hnames telling
    refine ⟨[], ?_, ?_⟩
    · simp_all [Edit.changes, View.follow, Function.comp_def]
    · simp [Edit.apply, FingerMap.values_empty]
  | keep | load => exact he.elim

theorem follows_shown {fingers : FingerMap} {pending : Option Call} {out : List Seen}
    (h : r.Shows v) (hs : r.Shown fingers pending out) :
    ∃ v', out.foldlM View.follow v = some v' ∧ v'.names.Perm (FingerMap.values fingers) ∧
      v'.pending = pending ∧ v'.telling = false := by
  have hnames := h.names
  have hpending := h.pending
  have htelling := h.telling
  cases hs with
  | skip => exact ⟨v, rfl, hnames, hpending, htelling⟩
  | @accept c hr hc =>
    have hv : v.pending = none ∧ v.Admits c := ⟨hpending.trans hr, (h.admits c).mpr hc⟩
    exact ⟨{ v with pending := some c }, by simp [View.follow, hv], hnames, rfl, htelling⟩
  | @refuse c hr hc =>
    have hv : v.pending = none ∧ v.Admits c := ⟨hpending.trans hr, (h.admits c).mpr hc⟩
    exact ⟨{ v with pending := none }, by simp [View.follow, hv, htelling], hnames, rfl, htelling⟩
  | effect he =>
    obtain ⟨names, htold, hperm⟩ := follow_effect h he
    exact ⟨{ names }, htold, hperm, rfl, rfl⟩
  | @identify name hn hr =>
    have hv : name ∈ v.names ∧ (v.pending = none ∨ v.pending = some .Identify) :=
      ⟨hnames.mem_iff.mpr hn, by rwa [hpending]⟩
    exact ⟨{ v with pending := none }, by simp [View.follow, hv], hnames, rfl, htelling⟩
  | ended =>
    exact ⟨{ v with pending := none }, by simp [View.follow, htelling], hnames, rfl, htelling⟩
  | list => exact ⟨v, by simp [View.follow, hnames.symm, htelling], hnames, hpending, htelling⟩

theorem follows_step (h : r.Shows v) (j : RegisterInput) :
    ∃ v', (register.step r j).2.foldlM View.follow v = some v' ∧
      (register.step r j).1.Shows v' := by
  obtain ⟨v', hv, hnames, hpending, htelling⟩ := follows_shown h (r.shown j)
  exact ⟨v', hv, hnames, hpending, htelling⟩

theorem follows_run (h : r.Shows v) (ks : List RegisterInput) :
    ∃ v', ((register.edges r ks).flatMap (·.out)).foldlM View.follow v = some v' ∧
      (register.final r ks).Shows v' :=
  register.monitored (R := Register.Shows) (fun _ j _ h => follows_step h j) ks h

end Follows

/-- **Clients know the list and the state from the bus.** From an idle state in which the fingers
are loaded, a client that starts from the answer of `GetAll` waits for everything it hears in a run,
and at the end it has the list, and the pending operation is the one the daemon is busy with. -/
theorem history_followed [QDataStream] (env : Env) (getprop : String → String)
    (database : Option (List UInt8)) (hal : TemplateHal) (hop : hal.op = .rest)
    (is js : List DeviceInput)
    (horderly : device.Along (Device.boot env getprop database hal) (is ++ js) fun _ e => Orderly e)
    (hloaded : Enumerated (device.edges (Device.boot env getprop database hal) is))
    (hidle : (device.final (Device.boot env getprop database hal) is).fpd.m_state =
      .FPSTATE_IDLE) :
    let s := device.final (Device.boot env getprop database hal) is
    let t := device.final s js
    ∃ v, ((device.edges s js).flatMap seen).foldlM View.follow { names := s.fpd.GetAll } = some v ∧
      v.names.Perm t.fpd.GetAll ∧ (v.pending = none ↔ t.fpd.m_state = .FPSTATE_IDLE) ∧
      ∀ c ∈ v.pending, t.fpd.m_state = c.busyState := by
  intro s t
  have hrun : ∃ ks, Represents t (register.final s.asRegister ks) ∧
      (register.edges s.asRegister ks).flatMap (·.out) =
        (device.edges s js).flatMap seen := register_run hop horderly hloaded hidle
  obtain ⟨ks, hr, hseen⟩ := hrun
  have hshows : s.asRegister.Shows { names := s.fpd.GetAll } :=
    ⟨.rfl, rfl, rfl⟩
  obtain ⟨v, hv, hend⟩ := follows_run hshows ks
  have hpending := hend.pending
  refine ⟨v, ?_, ?_, ?_, ?_⟩
  · rw [← hseen]
    exact hv
  · rw [GetAll, ← hr.fingers]
    exact hend.names
  · rw [hpending]
    exact hr.idle_iff.symm
  · rw [hpending]
    exact fun c hc => hr.busy hc

theorem history_followed_first :
    letI := qt56
    let s := device.final (Device.boot (.answering SYS_OK) (fun _ => "") none emptyHal) emptyLoad
    ∃ v, ((device.edges s firstInputs).flatMap seen).foldlM View.follow
        { names := s.fpd.GetAll } = some v ∧ v.names.Perm ["left"] ∧ v.pending = none := by
  obtain ⟨v, hv, hnames, hpending, -⟩ := @history_followed qt56 (.answering SYS_OK)
    (fun _ => "") none emptyHal rfl emptyLoad firstInputs first_orderly empty_loaded
    (by decide +kernel)
  exact ⟨v, hv, hnames.trans (.of_eq (by decide +kernel)), hpending.mpr (by decide +kernel)⟩

/-- A name that nobody has asked for is not waited for. -/
example :
    [Seen.change (.added "left"), .change .listed].foldlM View.follow { names := [] } = none := by
  decide

end SailfishFpd

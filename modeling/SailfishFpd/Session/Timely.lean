import SailfishFpd.Session.History

/-!
# Signals that are overtaken

Between a callback and the slot of the signal it posted, other steps come: older
signals are handled, clients abort, the timer expires. The slot of a match, of a
success or of a removal does not look whether the operation that the signal was
meant for still runs. `Timely` says, of the callbacks and of the order of the
steps, that nothing overtakes a signal. It is what it takes: in a run that keeps
to it every such signal is handled while its operation runs, and a run that does
not has a prefix after which handling what is queued is enough to see one that
is not.
-/

namespace SailfishFpd

open FPDCommunity
open Reactive.Machine (exists_first_of_not_along)

/-- The slot of the signal ends an operation that is in state `st`. -/
def Signal.EndsIn (st : State) : Signal → Prop
  | .failed message =>
    st ≠ .FPSTATE_IDLE ∧ ¬ (st = .FPSTATE_IDENTIFYING ∧ message = "FINGER_NOT_RECOGNIZED")
  | .succeeded _ | .removed _ | .authenticated _ | .enumerated => True
  | .enrollProgress _ => st = .FPSTATE_VERIFYING
  | .acquired _ => False

instance (st : State) : (signal : Signal) → Decidable (signal.EndsIn st)
  | .failed _ => inferInstanceAs (Decidable (_ ∧ _))
  | .succeeded _ | .removed _ | .authenticated _ | .enumerated => isTrue trivial
  | .enrollProgress _ => inferInstanceAs (Decidable (st = .FPSTATE_VERIFYING))
  | .acquired _ => isFalse id

theorem FPDCommunity.signalMove_stay_iff (d : FPDCommunity) (signal : Signal) :
    d.signalMove signal = .stay ↔ ¬ signal.EndsIn d.m_state := by
  cases signal with
  | failed message =>
    have hends : (Signal.failed message).EndsIn d.m_state ↔ ¬ d.tolerates message := not_or.symm
    by_cases ht : d.tolerates message <;> simp [signalMove, hends, ht]
  | _ => simp [signalMove, Signal.EndsIn]

/-- An `Abort` or the timer ends the operation that runs. -/
def Interrupts (s : System) (i : Input) : Prop :=
  match i.event with
  | .call caller .Abort => ¬ s.fpd.busyForOther caller
  | .timeout => s.fpd.m_cancelTimer = true
  | _ => False

instance (s : System) : (i : Input) → Decidable (Interrupts s i)
  | ⟨.call caller .Abort, _⟩ => inferInstanceAs (Decidable (¬ s.fpd.busyForOther caller))
  | ⟨.timeout, _⟩ => inferInstanceAs (Decidable (s.fpd.m_cancelTimer = true))
  | ⟨.call _ (.Enroll _), _⟩ | ⟨.call _ .Identify, _⟩ | ⟨.call _ .GetState, _⟩
  | ⟨.call _ .GetAll, _⟩ | ⟨.call _ .Verify, _⟩ | ⟨.call _ (.Remove _), _⟩
  | ⟨.call _ .Clear, _⟩ | ⟨.callback _, _⟩ | ⟨.deliver, _⟩ => isFalse id

/-- The signals that the callback of a step posts. -/
def posted (e : Edge) : List Signal :=
  match e.input.event with
  | .callback cb => (e.src.fpd.m_androidFP.callback e.input.env.hal cb).signals
  | _ => []

/-- A signal of kind `p`, for the operation in state `st` for which `Q` holds, is posted while this
operation runs and nothing that ends it is queued, and while one is queued neither an `Abort` nor
the timer ends it. -/
structure Timely (p : Signal → Prop) (st : State) (Q : List Edge → System → Prop)
    (past : List Edge) (e : Edge) : Prop where
  posted : (∃ signal ∈ posted e, p signal) →
    Q past e.src ∧ ∀ first ∈ e.src.queue, ¬ first.EndsIn st
  kept : (∃ signal ∈ e.src.queue, p signal) → ¬ Interrupts e.src e.input

instance {p : Signal → Prop} {st : State} {Q : List Edge → System → Prop} {past : List Edge}
    {e : Edge} [DecidablePred p] [Decidable (Q past e.src)] : Decidable (Timely p st Q past e) :=
  decidable_of_iff (((∃ signal ∈ SailfishFpd.posted e, p signal) →
      Q past e.src ∧ ∀ first ∈ e.src.queue, ¬ first.EndsIn st) ∧
      ((∃ signal ∈ e.src.queue, p signal) → ¬ Interrupts e.src e.input))
    ⟨fun h => ⟨h.1, h.2⟩, fun h => ⟨h.posted, h.kept⟩⟩

/-- A callback posts at most one signal besides its progress, which comes first. -/
theorem AndroidFP.callback_front {hal : Hal} {cb : Callback} {self : AndroidFP}
    {front back : List Signal} {signal : Signal}
    (h : (self.callback hal cb).signals = front ++ signal :: back) :
    ∀ first ∈ front, ∃ pc, first = .enrollProgress pc := by
  have hone : (self.callback hal cb).signals.length ≤ 1 → front = [] := by
    intro hlen
    rw [h, List.length_append, List.length_cons] at hlen
    exact List.length_eq_zero_iff.mp (by omega)
  cases cb with
  | enrollresult fingerId remaining =>
    by_cases hr : 0 < remaining
    · simp [hone (by simp [callback, enrollCallback, hr])]
    · simp only [callback, enrollCallback, if_neg hr] at h
      cases front with
      | nil => simp
      | cons first front =>
        obtain ⟨rfl, hrest⟩ := List.cons.inj h
        have hlen := congrArg List.length hrest
        simp only [List.length_cons, List.length_nil, List.append_eq, List.length_append] at hlen
        obtain rfl : front = [] := List.length_eq_zero_iff.mp (by omega)
        simp
  | removed fingerId remaining =>
    refine fun first hf => absurd hf ?_
    rw [hone (by simp only [callback, removeCallback]; split <;> simp)]
    simp
  | enumerate fingerId remaining =>
    by_cases hr : remaining = 0 <;> simp [hone (by simp [callback, enumerateCallback, hr])]
  | authenticated fingerId =>
    by_cases hf : fingerId = 0 <;> simp [hone (by simp [callback, hf])]
  | error error vendorCode =>
    by_cases he : error = ERROR_NO_ERROR <;> simp [hone (by simp [callback, he])]
  | acquired info => simp [hone (by simp [callback, acquiredCallback])]

theorem queued_or_posted {queue signals front back : List Signal} {signal : Signal}
    (h : queue ++ signals = front ++ signal :: back) :
    (∃ front', front = queue ++ front' ∧ signals = front' ++ signal :: back) ∨
      ∃ back', queue = front ++ signal :: back' ∧ back = back' ++ signals := by
  rcases List.append_eq_append_iff.mp h with h | ⟨rest, hqueue, hrest⟩
  · exact .inl h
  · cases rest with
    | nil => exact .inl ⟨[], by simp [hqueue], hrest.symm⟩
    | cons first rest =>
      obtain ⟨rfl, hback⟩ := List.cons.inj hrest
      exact .inr ⟨rest, hqueue, hback⟩

/-- `Q` says that an operation in state `st` runs: what leaves the session alone leaves it alone. -/
structure Lasts [QDataStream] (st : State) (Q : List Edge → System → Prop) : Prop where
  busy : st ≠ .FPSTATE_IDLE
  state : ∀ {past s}, Q past s → s.fpd.m_state = st
  stay : ∀ {past s i}, s.move i = .stay →
    (Q (past ++ [daemon.edge s i]) (daemon.step s i).1 ↔ Q past s)

/-- The signals of kind `p` that are queued are for the running operation, and it is not over by the
time they are handled. -/
def Waits (p : Signal → Prop) (st : State) (Q : List Edge → System → Prop) (past : List Edge)
    (s : System) : Prop :=
  ∀ front signal back, s.queue = front ++ signal :: back → p signal →
    Q past s ∧ ∀ first ∈ front, ¬ first.EndsIn st

/-- A queued signal of kind `p` comes too late, or will. -/
def Late (p : Signal → Prop) (st : State) (Q : List Edge → System → Prop) (past : List Edge)
    (s : System) : Prop :=
  ∃ front signal back, s.queue = front ++ signal :: back ∧ p signal ∧
    (Q past s → ∃ first ∈ front, first.EndsIn st)

section Steps

variable [QDataStream] {p : Signal → Prop} {st : State} {Q : List Edge → System → Prop}
  {past : List Edge} {s : System} {i : Input}

theorem lasts_state (hst : st ≠ .FPSTATE_IDLE) : Lasts st fun _ s => s.fpd.m_state = st where
  busy := hst
  state h := h
  stay {_ s i} hm := by
    have hc := congrArg Control.state (step_makes s i).1
    rw [hm] at hc
    have hsame : (daemon.step s i).1.fpd.m_state = s.fpd.m_state := hc
    rw [hsame]

theorem Lasts.finish (hQ : Lasts st Q) {e : Ending} (hm : s.move i = .finish e) :
    ¬ Q (past ++ [daemon.edge s i]) (daemon.step s i).1 := by
  intro h
  have hc := congrArg Control.state (step_makes s i).1
  rw [hm] at hc
  exact hQ.busy ((hQ.state h).symm.trans hc)

theorem System.queue_step (s : System) (i : Input) :
    (daemon.step s i).1.queue =
      (if i.event = .deliver then s.queue.tail else s.queue) ++ posted (daemon.edge s i) := by
  obtain ⟨event, env⟩ := i
  cases event with
  | call caller c => exact (List.append_nil _).symm
  | timeout => by_cases ht : s.fpd.m_cancelTimer <;> simp [daemon, System.step, ht, posted]
  | callback cb => rfl
  | deliver =>
    obtain ⟨d, queue⟩ := s
    cases queue with
    | nil => rfl
    | cons signal queue => exact (List.append_nil _).symm

omit [QDataStream] in
theorem System.move_stay_iff (hs : s.fpd.m_state ≠ .FPSTATE_IDLE) (hi : i.event ≠ .deliver) :
    s.move i = .stay ↔ ¬ Interrupts s i := by
  obtain ⟨event, env⟩ := i
  cases event with
  | call caller c =>
    have hnone : s.fpd.requestOf caller c = none := requestOf_busy (.inr hs)
    cases c <;> simp [System.move, callMove, hnone, Interrupts, hs]
  | timeout => by_cases ht : s.fpd.m_cancelTimer <;> simp [System.move, ht, Interrupts]
  | callback cb => simp [System.move, Interrupts]
  | deliver => exact absurd rfl hi

omit [QDataStream] in
theorem System.move_deliver {signal : Signal} {queue : List Signal} (hi : i.event = .deliver)
    (hq : s.queue = signal :: queue) : s.move i = s.fpd.signalMove signal := by
  simp [System.move, hi, hq]

theorem move_of_posted {signal : Signal} (h : signal ∈ posted (daemon.edge s i)) :
    i.event ≠ .deliver ∧ s.move i = .stay := by
  obtain ⟨event, env⟩ := i
  cases event with
  | callback cb => exact ⟨by simp, rfl⟩
  | _ => exact absurd h List.not_mem_nil

theorem waits_step (hQ : Lasts st Q) (hv : st ≠ .FPSTATE_VERIFYING) (h : Waits p st Q past s)
    (ht : Timely p st Q past (daemon.edge s i)) :
    Waits p st Q (past ++ [daemon.edge s i]) (daemon.step s i).1 := by
  intro front signal back hq hp
  rw [System.queue_step] at hq
  by_cases hd : i.event = .deliver
  · have hnone : posted (daemon.edge s i) = [] := by simp [posted, hd]
    rw [if_pos hd, hnone, List.append_nil] at hq
    cases hqueue : s.queue with
    | nil => simp [hqueue] at hq
    | cons first queue =>
      obtain rfl : queue = front ++ signal :: back := by simpa [hqueue] using hq
      obtain ⟨hrun, hfront⟩ := h (first :: front) signal back hqueue hp
      have hstay : s.move i = .stay := by
        rw [System.move_deliver hd hqueue, signalMove_stay_iff, hQ.state hrun]
        exact hfront first List.mem_cons_self
      exact ⟨(hQ.stay hstay).mpr hrun, fun x hx => hfront x (List.mem_cons_of_mem _ hx)⟩
  · rw [if_neg hd] at hq
    rcases queued_or_posted hq with ⟨front', rfl, hposted⟩ | ⟨back', hqueue, -⟩
    · have hmem : signal ∈ posted (daemon.edge s i) := by simp [hposted]
      obtain ⟨hrun, hqueued⟩ := ht.posted ⟨signal, hmem, hp⟩
      refine ⟨(hQ.stay (move_of_posted hmem).2).mpr hrun, fun first hfirst => ?_⟩
      rcases List.mem_append.mp hfirst with hfirst | hfirst
      · exact hqueued first hfirst
      · obtain ⟨event, env⟩ := i
        cases event with
        | callback cb =>
          obtain ⟨pc, rfl⟩ := AndroidFP.callback_front hposted first hfirst
          exact hv
        | _ => simp [posted] at hmem
    · obtain ⟨hrun, hfront⟩ := h front signal back' hqueue hp
      have hbusy : s.fpd.m_state ≠ .FPSTATE_IDLE := hQ.state hrun ▸ hQ.busy
      have hstay : s.move i = .stay :=
        (System.move_stay_iff hbusy hd).mpr (ht.kept ⟨signal, by simp [hqueue], hp⟩)
      exact ⟨(hQ.stay hstay).mpr hrun, hfront⟩

/-- A step that is not timely makes a signal late. -/
theorem late_of_not_timely (hQ : Lasts st Q) (h : Waits p st Q past s)
    (ht : ¬ Timely p st Q past (daemon.edge s i)) :
    Late p st Q (past ++ [daemon.edge s i]) (daemon.step s i).1 := by
  by_cases hposts : (∃ signal ∈ posted (daemon.edge s i), p signal) →
      Q past s ∧ ∀ first ∈ s.queue, ¬ first.EndsIn st
  · -- an operation is interrupted
    have hkept : ¬ ((∃ signal ∈ s.queue, p signal) → ¬ Interrupts s i) :=
      fun hkept => ht ⟨hposts, hkept⟩
    obtain ⟨⟨signal, hmem, hp⟩, hinterrupts⟩ := Classical.not_imp.mp hkept
    rw [not_not] at hinterrupts
    obtain ⟨front, back, hqueue⟩ := List.append_of_mem hmem
    obtain ⟨hrun, -⟩ := h front signal back hqueue hp
    have hbusy : s.fpd.m_state ≠ .FPSTATE_IDLE := hQ.state hrun ▸ hQ.busy
    have hd : i.event ≠ .deliver := fun hd => by simp [Interrupts, hd] at hinterrupts
    have hmove : s.move i ≠ .stay := fun hstay =>
      (System.move_stay_iff hbusy hd).mp hstay hinterrupts
    obtain ⟨e, hm⟩ := (System.move_of_busy hbusy i).resolve_left hmove
    refine ⟨front, signal, back ++ posted (daemon.edge s i), ?_, hp, fun hrun' => ?_⟩
    · rw [System.queue_step, if_neg hd, hqueue]
      simp
    · exact absurd hrun' (hQ.finish hm)
  · obtain ⟨⟨signal, hmem, hp⟩, hrun⟩ := Classical.not_imp.mp hposts
    obtain ⟨front, back, hposted⟩ := List.append_of_mem hmem
    obtain ⟨hd, hstay⟩ := move_of_posted hmem
    refine ⟨s.queue ++ front, signal, back, ?_, hp, fun hrun' => ?_⟩
    · rw [System.queue_step, if_neg hd, hposted, List.append_assoc]
    · have hends : ¬ ∀ first ∈ s.queue, ¬ first.EndsIn st :=
        fun hnone => hrun ⟨(hQ.stay hstay).mp hrun', hnone⟩
      push Not at hends
      obtain ⟨first, hfirst, hends⟩ := hends
      exact ⟨first, List.mem_append_left _ hfirst, hends⟩

/-- A late signal is handled too late, when nothing but deliveries comes. -/
theorem late_handled (hQ : Lasts st Q) (env : Env) (h : Late p st Q past s) :
    ∃ n signal queue, (daemon.final s (List.replicate n ⟨.deliver, env⟩)).queue = signal :: queue ∧
      p signal ∧ ¬ Q (past ++ daemon.edges s (List.replicate n ⟨.deliver, env⟩))
        (daemon.final s (List.replicate n ⟨.deliver, env⟩)) := by
  obtain ⟨front, signal, back, hqueue, hp, hlate⟩ := h
  induction front generalizing past s with
  | nil =>
    refine ⟨0, signal, back, hqueue, hp, fun hrun => ?_⟩
    obtain ⟨first, hfirst, -⟩ := hlate (by simpa using hrun)
    exact absurd hfirst List.not_mem_nil
  | cons first front ih =>
    let i : Input := ⟨.deliver, env⟩
    have hnext : (daemon.step s i).1.queue = front ++ signal :: back := by
      rw [System.queue_step, if_pos rfl, hqueue]
      exact List.append_nil _
    have hmove : s.move i = s.fpd.signalMove first := System.move_deliver rfl hqueue
    have hlate' : Q (past ++ [daemon.edge s i]) (daemon.step s i).1 →
        ∃ first ∈ front, first.EndsIn st := by
      intro hrun'
      have hstay : s.move i = .stay := by
        cases hm : s.move i with
        | stay => rfl
        | finish e => exact absurd hrun' (hQ.finish hm)
        | start caller c | bounce caller c =>
          have hstarted := s.fpd.signalMove_started first
          rw [← hmove, hm] at hstarted
          cases hstarted
      have hrun := (hQ.stay hstay).mp hrun'
      obtain ⟨x, hx, hends⟩ := hlate hrun
      rcases List.mem_cons.mp hx with rfl | hx
      · rw [hmove, signalMove_stay_iff, hQ.state hrun] at hstay
        exact absurd hends hstay
      · exact ⟨x, hx, hends⟩
    obtain ⟨n, signal', queue, hq, hp', hno⟩ := ih hnext hlate'
    rw [List.append_assoc] at hno
    exact ⟨n + 1, signal', queue, hq, hp', hno⟩

end Steps

section Runs

variable [QDataStream] {p : Signal → Prop} {st : State} {Q : List Edge → System → Prop}
  {s : System} {is : List Input}

theorem visits_waits (hQ : Lasts st Q) (hv : st ≠ .FPSTATE_VERIFYING) (hs : s.queue = [])
    (h : daemon.Along s is (Timely p st Q)) : daemon.Visits s is (Waits p st Q) := by
  refine h.visits ?_ fun past t i hI hi => waits_step hQ hv hI hi
  intro front signal back hq
  simp [hs] at hq

theorem inTime_of_timely (hQ : Lasts st Q) (hv : st ≠ .FPSTATE_VERIFYING) (hs : s.queue = [])
    (h : daemon.Along s is (Timely p st Q)) : daemon.Along s is (InTime p Q) := by
  refine h.of_visits (visits_waits hQ hv hs h) fun past t i hI _ _ signal queue hq hp => ?_
  exact (hI [] signal queue hq hp).1

/-- A run with a signal that is not timely has a prefix after which the deliveries alone lead to one
that is about to be handled too late. -/
theorem exists_late_of_not_timely (hQ : Lasts st Q) (hv : st ≠ .FPSTATE_VERIFYING)
    (hs : s.queue = []) (env : Env) (h : ¬ daemon.Along s is (Timely p st Q)) :
    ∃ js ks n signal queue, is = js ++ ks ∧
      (daemon.final s (js ++ List.replicate n ⟨.deliver, env⟩)).queue = signal :: queue ∧
      p signal ∧ ¬ Q (daemon.edges s (js ++ List.replicate n ⟨.deliver, env⟩))
        (daemon.final s (js ++ List.replicate n ⟨.deliver, env⟩)) := by
  obtain ⟨js, i, ks, rfl, hjs, hi⟩ := exists_first_of_not_along h
  have hlate := late_of_not_timely hQ (visits_waits hQ hv hs hjs).final hi
  obtain ⟨n, signal, queue, hqueue, hp, hno⟩ := late_handled hQ env hlate
  refine ⟨js ++ [i], ks, n, signal, queue, by simp, ?_, hp, ?_⟩
  · simpa [daemon.final_append] using hqueue
  · simpa [daemon.edges_append, daemon.final_append] using hno

/-- With one more delivery it is. -/
theorem exists_not_inTime_of_not_timely (hQ : Lasts st Q) (hv : st ≠ .FPSTATE_VERIFYING)
    (hs : s.queue = []) (env : Env) (h : ¬ daemon.Along s is (Timely p st Q)) :
    ∃ js ks n, is = js ++ ks ∧
      ¬ daemon.Along s (js ++ List.replicate n ⟨.deliver, env⟩) (InTime p Q) := by
  obtain ⟨js, ks, n, signal, queue, rfl, hqueue, hp, hno⟩ :=
    exists_late_of_not_timely hQ hv hs env h
  refine ⟨js, ks, n + 1, rfl, fun htime => hno ?_⟩
  have hlast := htime (js ++ List.replicate n (⟨.deliver, env⟩ : Input)) ⟨.deliver, env⟩ []
    (by simp [List.replicate_succ'])
  exact hlast rfl signal queue hqueue hp

end Runs

end SailfishFpd

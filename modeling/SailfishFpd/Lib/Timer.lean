import SailfishFpd.Lib.Machine

/-!
# Machines with a clock and a one-shot timer

`Machine.clocked` puts a machine beside a clock: time passes or the machine takes
a step, and the clock notes when the machine's `Timer` was last started. What
holds in the runs of the machine holds in its timed runs (`Visits.clocked`).
`Punctual` is what a timer promises: it does not expire earlier than `early`
before its interval is over, and no time passes once it is `late`. Then an
active timer was started no longer ago than that (`Punctual.running`), and
expires no sooner (`Punctual.expiry`).
-/

namespace Reactive

/-- Time passes, or the machine takes a step. -/
inductive Timed (ι : Type) where
  | elapse (ms : Nat)
  | step (i : ι)

/-- A one-shot timer: how long it runs, whether it does, which steps start it, started anew where
it runs, and which inputs are its expiry. -/
structure Timer (σ ι : Type) where
  interval : Nat
  active : σ → Bool
  starts : σ → ι → Bool
  expires : ι → Bool

/-- A state, the time, and the time when the timer was last started. -/
structure Clocked (σ : Type) where
  state : σ
  now : Nat := 0
  since : Nat := 0

namespace Machine

variable {σ ι ο : Type} (M : Machine σ ι ο) (T : Timer σ ι)

/-- The machine beside a clock. -/
def clocked : Machine (Clocked σ) (Timed ι) (Option ο) where
  step c
    | .elapse ms => ({ c with now := c.now + ms }, none)
    | .step i =>
      ({ c with
          state := (M.step c.state i).1
          since := if T.starts c.state i then c.now else c.since },
        some (M.step c.state i).2)

@[simp] theorem clocked_elapse (c : Clocked σ) (ms : Nat) :
    (M.clocked T).step c (.elapse ms) = ({ c with now := c.now + ms }, none) := rfl

@[simp] theorem clocked_step (c : Clocked σ) (i : ι) :
    (M.clocked T).step c (.step i) =
      ({ c with
          state := (M.step c.state i).1
          since := if T.starts c.state i then c.now else c.since },
        some (M.step c.state i).2) := rfl

abbrev ClockedEdge (σ ι ο : Type) := Edge (Clocked σ) (Timed ι) (Option ο)

end Machine

open Machine (ClockedEdge latest)

variable {σ ι ο : Type}

/-- The step of the machine, if time does not just pass. -/
def Edge.untimed? (e : ClockedEdge σ ι ο) : Option (Edge σ ι ο) :=
  match e.input, e.out with
  | .step i, some out => some ⟨e.src.state, i, out, e.dst.state⟩
  | _, _ => none

@[simp] theorem untimed?_elapse {M : Machine σ ι ο} {T : Timer σ ι} {c : Clocked σ} {ms : Nat} :
    ((M.clocked T).edge c (.elapse ms)).untimed? = none := rfl

@[simp] theorem untimed?_step {M : Machine σ ι ο} {T : Timer σ ι} {c : Clocked σ} {i : ι} :
    ((M.clocked T).edge c (.step i)).untimed? = some (M.edge c.state i) := rfl

/-- The steps of the machine in a timed run. -/
def untimed (past : List (ClockedEdge σ ι ο)) : List (Edge σ ι ο) := past.filterMap Edge.untimed?

def Timed.input? : Timed ι → Option ι
  | .elapse _ => none
  | .step i => some i

namespace Machine

variable {M : Machine σ ι ο} {T : Timer σ ι} {c : Clocked σ}

theorem clocked_final (is : List (Timed ι)) :
    ((M.clocked T).final c is).state = M.final c.state (is.filterMap Timed.input?) := by
  induction is generalizing c with
  | nil => rfl
  | cons i is ih =>
    cases i with
    | elapse ms => exact ih
    | step i => exact ih

theorem clocked_edges (is : List (Timed ι)) :
    untimed ((M.clocked T).edges c is) = M.edges c.state (is.filterMap Timed.input?) := by
  induction is generalizing c with
  | nil => rfl
  | cons i is ih =>
    cases i with
    | elapse ms => exact ih
    | step i => exact congrArg (M.edge c.state i :: ·) ih

/-- Timed runs are runs: what those visit has the property, so do these. -/
theorem Visits.clocked {P : List (Edge σ ι ο) → σ → Prop} {is : List (Timed ι)}
    (h : M.Visits c.state (is.filterMap Timed.input?) P) :
    (M.clocked T).Visits c is fun past c' => P (untimed past) c'.state := by
  rintro js ks rfl
  rw [clocked_final, clocked_edges]
  exact h _ (ks.filterMap Timed.input?) (by simp)

end Machine

theorem latest_untimed {α : Type} (f : Edge σ ι ο → Option α) (past : List (ClockedEdge σ ι ο)) :
    latest f (untimed past) = latest (fun e : ClockedEdge σ ι ο => e.untimed?.bind f) past := by
  induction past using List.reverseRecOn with
  | nil => rfl
  | append_singleton past e ih =>
    rw [Machine.latest_snoc, ← ih, untimed, List.filterMap_append]
    cases he : e.untimed? with
    | none => simp [he, untimed]
    | some e' => simp [he, untimed]

/-- When the timer was last started. -/
def Timer.startedAt (T : Timer σ ι) (past : List (ClockedEdge σ ι ο)) : Option Nat :=
  latest (fun e : ClockedEdge σ ι ο =>
    match e.input with
    | .elapse _ => none
    | .step i => if T.starts e.src.state i then some e.src.now else none) past

section StartedAt

variable {M : Machine σ ι ο} {T : Timer σ ι} {past : List (ClockedEdge σ ι ο)} {c : Clocked σ}

@[simp] theorem Timer.startedAt_elapse {ms : Nat} :
    T.startedAt (past ++ [(M.clocked T).edge c (.elapse ms)]) = T.startedAt past := by
  simp [Timer.startedAt]

@[simp] theorem Timer.startedAt_step {i : ι} :
    T.startedAt (past ++ [(M.clocked T).edge c (.step i)]) =
      if T.starts c.state i then some c.now else T.startedAt past := by
  by_cases hs : T.starts c.state i <;> simp [Timer.startedAt, hs]

end StartedAt

/-- The timer expires no earlier than `early` before its interval is over, and no later than `late`
after. -/
structure Punctual (T : Timer σ ι) (early late : Nat) (e : ClockedEdge σ ι ο) : Prop where
  early : ∀ i, e.input = .step i → T.expires i → T.active e.src.state →
    e.src.since + T.interval ≤ e.src.now + early
  late : ∀ ms, e.input = .elapse ms → T.active e.src.state →
    e.src.now + ms ≤ e.src.since + T.interval + late

namespace Punctual

open Machine

variable {M : Machine σ ι ο} {T : Timer σ ι} {early late : Nat} {c : Clocked σ}

/-- Whether a run is punctual. -/
def check (M : Machine σ ι ο) (T : Timer σ ι) (early late : Nat) :
    Clocked σ → List (Timed ι) → Bool
  | _, [] => true
  | c, .elapse ms :: is =>
    (!T.active c.state || c.now + ms ≤ c.since + T.interval + late) &&
      check M T early late ((M.clocked T).step c (.elapse ms)).1 is
  | c, .step i :: is =>
    (!(T.expires i && T.active c.state) || c.since + T.interval ≤ c.now + early) &&
      check M T early late ((M.clocked T).step c (.step i)).1 is

theorem of_check (is : List (Timed ι)) (h : check M T early late c is) :
    (M.clocked T).Along c is fun _ e => Punctual T early late e := by
  induction is generalizing c with
  | nil => exact along_nil
  | cons i is ih =>
    cases i with
    | elapse ms =>
      obtain ⟨hlate, hrest⟩ := Bool.and_eq_true_iff.mp h
      refine along_cons ⟨fun _ he => (nomatch he), fun ms' he (hactive : T.active c.state) => ?_⟩
        (ih hrest)
      cases he
      simpa [hactive] using hlate
    | step i =>
      obtain ⟨hearly, hrest⟩ := Bool.and_eq_true_iff.mp h
      refine along_cons ⟨fun i' he hexpires (hactive : T.active c.state) => ?_,
        fun _ he => nomatch he⟩ (ih hrest)
      cases he
      simpa [hactive, hexpires] using hearly

/-- An active timer was started at `since`, and is not overdue. -/
def Running (T : Timer σ ι) (late : Nat) (past : List (ClockedEdge σ ι ο)) (c : Clocked σ) :
    Prop :=
  T.active c.state → T.startedAt past = some c.since ∧ c.since ≤ c.now ∧
    c.now ≤ c.since + T.interval + late

theorem running_step (hstarts : ∀ s i, T.active (M.step s i).1 → T.active s ∨ T.starts s i)
    {past : List (ClockedEdge σ ι ο)} (h : Running T late past c) {i : Timed ι}
    (hi : Punctual T early late ((M.clocked T).edge c i)) :
    Running T late (past ++ [(M.clocked T).edge c i]) ((M.clocked T).step c i).1 := by
  cases i with
  | elapse ms =>
    intro (hactive : T.active c.state)
    obtain ⟨hsince, hle, -⟩ := h hactive
    refine ⟨?_, ?_, hi.late ms rfl hactive⟩
    · rwa [Timer.startedAt_elapse]
    · exact Nat.le_add_right_of_le hle
  | step i =>
    intro hactive
    by_cases hs : T.starts c.state i
    · refine ⟨?_, ?_, ?_⟩
      · simp [hs]
      · simp [hs]
      · rw [clocked_step, if_pos hs]
        exact Nat.le_add_right_of_le (Nat.le_add_right c.now T.interval)
    · obtain ⟨hsince, hle, hlate⟩ := h ((hstarts c.state i hactive).resolve_right hs)
      rw [clocked_step, if_neg hs]
      refine ⟨?_, hle, hlate⟩
      rwa [Timer.startedAt_step, if_neg hs]

/-- **In a punctual run** an active timer was last started no longer ago than its interval and
`late`. -/
theorem running (hstarts : ∀ s i, T.active (M.step s i).1 → T.active s ∨ T.starts s i)
    (h0 : ¬ T.active c.state) {is : List (Timed ι)}
    (h : (M.clocked T).Along c is fun _ e => Punctual T early late e) :
    (M.clocked T).Visits c is fun past c => Running T late past c :=
  h.visits (fun hactive => absurd hactive h0) fun _ _ _ h hi => running_step hstarts h hi

/-- An expiry of an active timer comes when its interval is over, give or take. -/
theorem expiry (hstarts : ∀ s i, T.active (M.step s i).1 → T.active s ∨ T.starts s i)
    (h0 : ¬ T.active c.state) {is : List (Timed ι)}
    (h : (M.clocked T).Along c is fun _ e => Punctual T early late e) :
    (M.clocked T).Along c is fun past e => ∀ i, e.input = .step i → T.expires i →
      T.active e.src.state → ∃ t, T.startedAt past = some t ∧
        t + T.interval ≤ e.src.now + early ∧ e.src.now ≤ t + T.interval + late := by
  refine h.of_visits (running hstarts h0 h) fun past c i hrunning hi j hj hexpires hactive => ?_
  obtain ⟨hsince, -, hlate⟩ := hrunning hactive
  exact ⟨c.since, hsince, hi.early j hj hexpires hactive, hlate⟩

end Punctual

end Reactive

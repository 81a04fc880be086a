import SailfishFpd.Lib.Machine

/-!
# A worker beside a machine

Some inputs of a machine stand for work that another thread does. Their step is
the whole of a `Program`, a sequence of accesses to the shared state. In
`threaded` the worker makes one access at a time and the machine takes its own
inputs in between. `traces_threaded`: where the inputs taken in between yield to
the program, both have the same traces.
-/

namespace Reactive

/-- The code of a worker. An access finds a state, changes it, shows something, and the code goes
on by what it found. -/
inductive Program (σ α : Type) where
  | done
  | access (effect : σ → σ) (shows : σ → List α) (next : σ → Program σ α)

namespace Program

variable {σ ι ο α : Type}

/-- All of the program at once. -/
def run : Program σ α → σ → σ × List α
  | done, s => (s, [])
  | access effect shows next, s =>
    (((next s).run (effect s)).1, shows s ++ ((next s).run (effect s)).2)

@[simp] theorem run_done (s : σ) : (done : Program σ α).run s = (s, []) := rfl

@[simp] theorem run_access (effect : σ → σ) (shows : σ → List α) (next : σ → Program σ α) (s : σ) :
    (access effect shows next).run s =
      (((next s).run (effect s)).1, shows s ++ ((next s).run (effect s)).2) := rfl

/-- Where `ok`, the input `i` of `M` and an access change places, wherever the program stands. -/
def Yields (M : Machine σ ι ο) (i : ι) (ok : σ → Prop) : Program σ α → Prop
  | done => True
  | access effect shows next =>
    (∀ s, ok s →
      ok (effect s) ∧ M.step (effect s) i = (effect (M.step s i).1, (M.step s i).2) ∧
        shows (M.step s i).1 = shows s ∧ next (M.step s i).1 = next s) ∧
    ∀ s, (next s).Yields M i ok

/-- Then the input and what is left of the program change places. -/
theorem Yields.run {M : Machine σ ι ο} {i : ι} {ok : σ → Prop} {p : Program σ α}
    (h : p.Yields M i ok) {s : σ} (hs : ok s) :
    ok (p.run s).1 ∧ M.step (p.run s).1 i = ((p.run (M.step s i).1).1, (M.step s i).2) ∧
      (p.run (M.step s i).1).2 = (p.run s).2 := by
  induction p generalizing s with
  | done => exact ⟨hs, rfl, rfl⟩
  | access effect shows next ih =>
    obtain ⟨hok, hstep, hshows, hnext⟩ := h.1 s hs
    obtain ⟨hrest, hrun, hshown⟩ := ih s (h.2 s) hok
    rw [hstep] at hrun hshown
    simp only [run_access, hshows, hnext]
    exact ⟨hrest, hrun, congrArg _ hshown⟩

end Program

/-- The shared state, and the worker's input with what is left of its program. -/
structure Threads (σ ι α : Type) where
  shared : σ
  worker : Option (ι × Program σ α) := none

/-- The shared state once the worker has finished, and what it has still to show then. -/
def Threads.ahead {σ ι α : Type} (t : Threads σ ι α) : σ × List α :=
  match t.worker with
  | none => (t.shared, [])
  | some (_, p) => p.run t.shared

inductive Turn (ι : Type) where
  /-- The machine takes an input, or the worker starts on it. -/
  | take (i : ι)
  | work

inductive Shown (ο α : Type) where
  | main (o : ο)
  | worker (out : List α)
  /-- A turn that cannot come: the worker is busy, or has nothing to do. -/
  | nothing

/-- What there is to see of a run: the last state, the machine's own inputs with their outputs, and
what the worker has started on and shown. -/
structure Trace (σ ι ο α : Type) where
  final : σ
  main : List (ι × ο)
  started : List ι
  shown : List α

namespace Machine

variable {σ ι ο α : Type} (M : Machine σ ι ο) (program : ι → Option (Program σ α))
  (idle : σ → ι → Bool)

/-- `M`, with a worker that runs the programs. -/
def threaded : Machine (Threads σ ι α) (Turn ι) (Shown ο α) where
  step t turn :=
    match turn, t.worker with
    | .take i, worker =>
      match program i, worker with
      | none, _ => ({ t with shared := (M.step t.shared i).1 }, .main (M.step t.shared i).2)
      | some p, none => ({ t with worker := some (i, p) }, .worker [])
      | some _, some _ => (t, .nothing)
    | .work, none => (t, .nothing)
    | .work, some (_, .done) => ({ t with worker := none }, .worker [])
    | .work, some (i, .access effect shows next) =>
      ({ shared := effect t.shared, worker := some (i, next t.shared) },
        .worker (shows t.shared))

/-! ## Traces -/

/-- What one of the machine's own inputs adds to the trace. -/
def mainOf (s : σ) (i : ι) : List (ι × ο) := if idle s i then [] else [(i, (M.step s i).2)]

/-- The trace of a run in which every program is run at once. -/
def trace (s : σ) (is : List ι) : Trace σ ι ο α where
  final := M.final s is
  main := (M.edges s is).flatMap fun e =>
    if (program e.input).isNone then M.mainOf idle e.src e.input else []
  started := is.filter fun i => (program i).isSome
  shown := (M.edges s is).flatMap fun e =>
    match program e.input with
    | none => []
    | some p => (p.run e.src).2

/-- The trace of a run with a worker. -/
def threadTrace (t : Threads σ ι α) (turns : List (Turn ι)) : Trace σ ι ο α where
  final := ((M.threaded program).final t turns).shared
  main := ((M.threaded program).edges t turns).flatMap fun e =>
    match e.input, e.out with
    | .take i, .main _ => M.mainOf idle e.src.shared i
    | _, _ => []
  started := ((M.threaded program).edges t turns).flatMap fun e =>
    match e.input, e.out with
    | .take i, .worker _ => [i]
    | _, _ => []
  shown := ((M.threaded program).edges t turns).flatMap fun e =>
    match e.out with
    | .worker out => out
    | _ => []

variable {M program idle}

theorem trace_main (s : σ) {i : ι} (hi : program i = none) (is : List ι) :
    M.trace program idle s (i :: is) =
      { M.trace program idle (M.step s i).1 is with
        main := M.mainOf idle s i ++ (M.trace program idle (M.step s i).1 is).main } := by
  simp [trace, hi]

theorem trace_program (s : σ) {i : ι} {p : Program σ α} (hi : program i = some p) (is : List ι) :
    M.trace program idle s (i :: is) =
      { M.trace program idle (M.step s i).1 is with
        started := i :: (M.trace program idle (M.step s i).1 is).started
        shown := (p.run s).2 ++ (M.trace program idle (M.step s i).1 is).shown } := by
  simp [trace, hi]

theorem threadTrace_append (t : Threads σ ι α) (turns turns' : List (Turn ι)) :
    M.threadTrace program idle t (turns ++ turns') =
      let first := M.threadTrace program idle t turns
      let rest := M.threadTrace program idle ((M.threaded program).final t turns) turns'
      { final := rest.final
        main := first.main ++ rest.main
        started := first.started ++ rest.started
        shown := first.shown ++ rest.shown } := by
  simp [threadTrace, Machine.edges_append, Machine.final_append]

/-- The turn `e` does not take an input that meets the worker's on the way: the input changes
nothing, or is independent of it. -/
def Undisturbed (program : ι → Option (Program σ α)) (idle : σ → ι → Bool) (D : σ → ι → ι → Prop)
    (e : Edge (Threads σ ι α) (Turn ι) (Shown ο α)) : Prop :=
  ∀ i j p, e.input = .take i → program i = none → e.src.worker = some (j, p) →
    idle e.src.shared i = true ∨ D e.src.shared i j

variable (M program idle) in
/-- The steps of the worker's inputs are their programs, and independent inputs yield to them. -/
structure Concurrent (D : σ → ι → ι → Prop) : Prop where
  runs : ∀ {s i p}, program i = some p → (M.step s i).1 = (p.run s).1
  rests : ∀ {s i}, idle s i = true → (M.step s i).1 = s
  acts : ∀ {s i j}, D s i j → idle s i = false
  yields : ∀ {i j p}, program i = none → program j = some p → p.Yields M i (D · i j)

section Traces

variable {D : σ → ι → ι → Prop}

/-- A worker that is left alone runs its program. -/
theorem exists_work (j : ι) (p : Program σ α) (s : σ) :
    ∃ turns : List (Turn ι), (∀ turn ∈ turns, turn = .work) ∧
      (M.threaded program).final ⟨s, some (j, p)⟩ turns = ⟨(p.run s).1, none⟩ ∧
      M.threadTrace program idle ⟨s, some (j, p)⟩ turns = ⟨(p.run s).1, [], [], (p.run s).2⟩ := by
  induction p generalizing s with
  | done => exact ⟨[.work], by simp, rfl, rfl⟩
  | access effect shows next ih =>
    obtain ⟨turns, hwork, hfinal, htrace⟩ := ih s (effect s)
    refine ⟨.work :: turns, by simpa using hwork, hfinal, ?_⟩
    have hcons : M.threadTrace program idle ⟨s, some (j, .access effect shows next)⟩
        (.work :: turns) =
          let rest := M.threadTrace program idle ⟨effect s, some (j, next s)⟩ turns
          { rest with shown := shows s ++ rest.shown } := rfl
    rw [hcons, htrace]
    rfl

/-- Every run has one in which the worker is left alone. -/
theorem exists_turns (h : Concurrent M program idle D) (is : List ι) (s : σ) :
    ∃ turns : List (Turn ι),
      (M.threaded program).Along ⟨s, none⟩ turns (fun _ e => Undisturbed program idle D e) ∧
      ((M.threaded program).final ⟨s, none⟩ turns).worker = none ∧
      M.threadTrace program idle ⟨s, none⟩ turns = M.trace program idle s is := by
  induction is generalizing s with
  | nil => exact ⟨[], along_nil, rfl, rfl⟩
  | cons i is ih =>
    cases hi : program i with
    | none =>
      obtain ⟨turns, hquiet, hend, htrace⟩ := ih (M.step s i).1
      have hstep : (M.threaded program).step ⟨s, none⟩ (.take i) =
          (⟨(M.step s i).1, none⟩, .main (M.step s i).2) := by
        simp [threaded, hi]
      refine ⟨.take i :: turns, along_cons ?_ ?_, ?_, ?_⟩
      · intro i' j p _ _ hworker
        cases hworker
      · rw [hstep]
        exact hquiet
      · rw [final_cons, hstep]
        exact hend
      · rw [trace_main s hi, ← htrace]
        simp [threadTrace, hstep]
    | some p =>
      obtain ⟨works, hwork, hfinal, hworked⟩ :=
        @exists_work _ _ _ _ M program idle i p s
      rw [← h.runs hi] at hfinal
      obtain ⟨turns, hquiet, hend, htrace⟩ := ih (M.step s i).1
      have hstep : (M.threaded program).step ⟨s, none⟩ (.take i) =
          (⟨s, some (i, p)⟩, .worker []) := by
        simp [threaded, hi]
      have hstart : (M.threaded program).final ⟨s, none⟩ (.take i :: works) =
          ⟨(M.step s i).1, none⟩ := by
        rw [final_cons, hstep]
        exact hfinal
      refine ⟨(.take i :: works) ++ turns, .append (along_cons ?_ ?_) ?_, ?_, ?_⟩
      · intro i' j q _ _ hworker
        cases hworker
      · refine along_of_forall_mem (p := (· = .work)) hwork |>.mono fun past e he => ?_
        intro i' j q htake
        cases he.symm.trans htake
      · rw [hstart]
        exact hquiet
      · rw [final_append, hstart]
        exact hend
      · rw [threadTrace_append, hstart, htrace, trace_program s hi]
        have hfirst : M.threadTrace program idle ⟨s, none⟩ (.take i :: works) =
            let rest := M.threadTrace program idle ⟨s, some (i, p)⟩ works
            { rest with started := i :: rest.started } := by
          simp [threadTrace, hstep]
        rw [hfirst, hworked]
        rfl

variable (M program D) in
/-- What is left of the worker's program yields to the machine's own inputs. -/
def Yielding (t : Threads σ ι α) : Prop :=
  ∀ j p, t.worker = some (j, p) → ∀ i, program i = none → p.Yields M i (D · i j)

variable (M program idle) in
/-- What the turn does is what the inputs `is` do to the state that the worker will leave. -/
structure Keeps (t : Threads σ ι α) (turn : Turn ι) (is : List ι) : Prop where
  final : M.final t.ahead.1 is = ((M.threaded program).step t turn).1.ahead.1
  main : (M.threadTrace program idle t [turn]).main = (M.trace program idle t.ahead.1 is).main
  started :
    (M.threadTrace program idle t [turn]).started = (M.trace program idle t.ahead.1 is).started
  shown : t.ahead.2 ++ (M.trace program idle t.ahead.1 is).shown =
    (M.threadTrace program idle t [turn]).shown ++ ((M.threaded program).step t turn).1.ahead.2

/-- One of the machine's own inputs. -/
theorem keeps_main (h : Concurrent M program idle D) {t : Threads σ ι α} {i : ι}
    (hi : program i = none) (ht : Yielding M program D t)
    (hquiet : Undisturbed program idle D ((M.threaded program).edge t (.take i))) :
    ∃ is, Keeps M program idle t (.take i) is := by
  obtain ⟨s, worker⟩ := t
  have hstep : (M.threaded program).step ⟨s, worker⟩ (.take i) =
      (⟨(M.step s i).1, worker⟩, .main (M.step s i).2) := by
    simp [threaded, hi]
  cases worker with
  | none =>
    refine ⟨[i], ?_, ?_, ?_, ?_⟩
    · rw [hstep]; rfl
    · simp [threadTrace, hstep, trace, hi, Threads.ahead]
    · simp [threadTrace, hstep, trace, hi]
    · simp [threadTrace, hstep, trace, hi, Threads.ahead]
  | some w =>
    obtain ⟨j, p⟩ := w
    rcases hquiet i j p rfl hi rfl with hidle | hD
    · have hidle' : idle s i = true := hidle
      have hs : (M.step s i).1 = s := h.rests hidle
      refine ⟨[], ?_, ?_, ?_, ?_⟩
      · rw [hstep, hs]; rfl
      · simp [threadTrace, hstep, trace, mainOf, hidle']
      · simp [threadTrace, hstep, trace]
      · simp [threadTrace, hstep, trace, hs]
    · have hD' : D s i j := hD
      obtain ⟨hlast, hrun, hshown⟩ := (ht j p rfl i hi).run hD'
      have hout : (M.step (p.run s).1 i).2 = (M.step s i).2 := by rw [hrun]
      refine ⟨[i], ?_, ?_, ?_, ?_⟩
      · rw [hstep]
        exact congrArg Prod.fst hrun
      · simp [threadTrace, hstep, trace, hi, Threads.ahead, mainOf, h.acts hD', h.acts hlast, hout]
      · simp [threadTrace, hstep, trace, hi]
      · simp [threadTrace, hstep, trace, hi, Threads.ahead, hshown]

/-- An input with a program: the worker starts on it, or is busy. -/
theorem keeps_start (h : Concurrent M program idle D) {t : Threads σ ι α} {i : ι}
    {p : Program σ α} (hi : program i = some p) : ∃ is, Keeps M program idle t (.take i) is := by
  obtain ⟨s, worker⟩ := t
  cases worker with
  | none =>
    have hstep : (M.threaded program).step ⟨s, none⟩ (.take i) =
        (⟨s, some (i, p)⟩, .worker []) := by
      simp [threaded, hi]
    refine ⟨[i], ?_, ?_, ?_, ?_⟩
    · rw [hstep]
      exact h.runs hi
    · simp [threadTrace, hstep, trace, hi]
    · simp [threadTrace, hstep, trace, hi]
    · simp [threadTrace, hstep, trace, hi, Threads.ahead]
  | some w =>
    have hstep : (M.threaded program).step ⟨s, some w⟩ (.take i) = (⟨s, some w⟩, .nothing) := by
      simp [threaded, hi]
    refine ⟨[], ?_, ?_, ?_, ?_⟩
    · rw [hstep]; rfl
    · simp [threadTrace, hstep, trace]
    · simp [threadTrace, hstep, trace]
    · simp [threadTrace, hstep, trace]

/-- A turn of the worker is part of what it will have done. -/
theorem keeps_work (t : Threads σ ι α) : Keeps M program idle t .work [] := by
  obtain ⟨s, _ | ⟨j, _ | ⟨effect, shows, next⟩⟩⟩ := t
  · exact ⟨rfl, rfl, rfl, rfl⟩
  · exact ⟨rfl, rfl, rfl, rfl⟩
  · refine ⟨rfl, rfl, rfl, ?_⟩
    simp [threadTrace, threaded, trace, Threads.ahead]

theorem yielding_step (h : Concurrent M program idle D) {t : Threads σ ι α} (turn : Turn ι)
    (ht : Yielding M program D t) : Yielding M program D ((M.threaded program).step t turn).1 := by
  obtain ⟨s, worker⟩ := t
  cases turn with
  | take i =>
    cases hi : program i with
    | none => simpa [threaded, hi, Yielding] using ht
    | some p =>
      cases worker with
      | none =>
        intro j q hq k hk
        obtain ⟨rfl, rfl⟩ : i = j ∧ p = q := by simpa [threaded, hi] using hq
        exact h.yields hk hi
      | some w => simpa [threaded, hi, Yielding] using ht
  | work =>
    rcases worker with _ | ⟨j, _ | ⟨effect, shows, next⟩⟩
    · exact ht
    · intro _ _ hno
      cases hno
    · intro j' q hq i hi
      obtain ⟨rfl, rfl⟩ : j = j' ∧ next s = q := by simpa [threaded] using hq
      exact (ht j _ rfl i hi).2 s

theorem trace_append (s : σ) (is js : List ι) :
    M.trace program idle s (is ++ js) =
      let first := M.trace program idle s is
      let rest := M.trace program idle (M.final s is) js
      { final := rest.final
        main := first.main ++ rest.main
        started := first.started ++ rest.started
        shown := first.shown ++ rest.shown } := by
  simp [trace, Machine.edges_append, Machine.final_append]

/-- Every undisturbed run has one in which every program is run at once, from the state that the
worker will leave. -/
theorem exists_inputs (h : Concurrent M program idle D) (turns : List (Turn ι))
    {t : Threads σ ι α} (ht : Yielding M program D t)
    (hquiet : (M.threaded program).Along t turns fun _ e => Undisturbed program idle D e)
    (hend : ((M.threaded program).final t turns).worker = none) :
    ∃ is : List ι,
      let ahead := M.trace program idle t.ahead.1 is
      M.threadTrace program idle t turns = { ahead with shown := t.ahead.2 ++ ahead.shown } := by
  induction turns generalizing t with
  | nil =>
    obtain ⟨s, worker⟩ := t
    obtain rfl : worker = none := hend
    exact ⟨[], rfl⟩
  | cons turn turns ih =>
    obtain ⟨is, hkeeps⟩ : ∃ is, Keeps M program idle t turn is := by
      cases turn with
      | take i =>
        cases hi : program i with
        | none => exact keeps_main h hi ht (hquiet [] _ turns rfl)
        | some p => exact keeps_start h hi
      | work => exact ⟨[], keeps_work t⟩
    obtain ⟨js, hjs⟩ := ih (yielding_step h turn ht)
      (fun ks i ls e => hquiet (turn :: ks) i ls (by rw [e]; rfl)) hend
    have hrest : M.threadTrace program idle ((M.threaded program).final t [turn]) turns = _ := hjs
    refine ⟨is ++ js, ?_⟩
    calc M.threadTrace program idle t ([turn] ++ turns)
      _ = _ := threadTrace_append t [turn] turns
      _ = _ := by
        rw [hrest, trace_append, hkeeps.final]
        simp only [hkeeps.main, hkeeps.started, ← List.append_assoc, hkeeps.shown]

/-- **Programs are atomic**: a worker that makes one access at a time, undisturbed, has the traces
of programs that are run at once. -/
theorem traces_threaded (h : Concurrent M program idle D) (s : σ) :
    {tr | ∃ is, M.trace program idle s is = tr} =
      {tr | ∃ turns : List (Turn ι),
        (M.threaded program).Along ⟨s, none⟩ turns (fun _ e => Undisturbed program idle D e) ∧
        ((M.threaded program).final ⟨s, none⟩ turns).worker = none ∧
        M.threadTrace program idle ⟨s, none⟩ turns = tr} := by
  ext tr
  refine ⟨?_, ?_⟩
  · rintro ⟨is, rfl⟩
    exact exists_turns h is s
  · rintro ⟨turns, hquiet, hend, rfl⟩
    obtain ⟨is, his⟩ := exists_inputs h turns (fun _ _ hno => by cases hno) hquiet hend
    exact ⟨is, his.symm⟩

end Traces

end Machine

end Reactive

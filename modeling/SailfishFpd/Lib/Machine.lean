import Mathlib.Data.List.Induction

/-!
# Reactive machines and their runs

A `Machine` answers one input at a time: a state and an input give the next
state and an output. A run is the list of its `Edge`s, each with the state it
left, the input, the output and the state it reached. Properties that need the
past are predicates on the edges so far and one more edge; `Along` says that
such a predicate holds at every edge of a run, and `Along.invariant` is the
induction over runs: an invariant that one allowed edge preserves holds at the
end of every run whose edges are all allowed. `OnlyDrops` is about inputs that
leave no trace, `Simulated` and `Refines` about the runs of one machine inside
another, `monitored` about reading along with a run, and `restarting` is a
machine that also gets restarted.
-/

namespace Reactive

structure Machine (σ ι ο : Type) where
  step : σ → ι → σ × ο

/-- One step of a run. -/
structure Edge (σ ι ο : Type) where
  src : σ
  input : ι
  out : ο
  dst : σ

namespace Machine

variable {σ ι ο : Type} (M : Machine σ ι ο)

def edge (s : σ) (i : ι) : Edge σ ι ο := ⟨s, i, (M.step s i).2, (M.step s i).1⟩

@[simp] theorem edge_src (s : σ) (i : ι) : (M.edge s i).src = s := rfl
@[simp] theorem edge_input (s : σ) (i : ι) : (M.edge s i).input = i := rfl
@[simp] theorem edge_out (s : σ) (i : ι) : (M.edge s i).out = (M.step s i).2 := rfl
@[simp] theorem edge_dst (s : σ) (i : ι) : (M.edge s i).dst = (M.step s i).1 := rfl

/-- The edges of the run on `is` from `s`. -/
def edges (s : σ) : List ι → List (Edge σ ι ο)
  | [] => []
  | i :: is => M.edge s i :: edges (M.step s i).1 is

/-- The state the run on `is` ends in. -/
def final (s : σ) : List ι → σ
  | [] => s
  | i :: is => final (M.step s i).1 is

@[simp] theorem edges_nil (s : σ) : M.edges s [] = [] := rfl

@[simp] theorem edges_cons (s : σ) (i : ι) (is : List ι) :
    M.edges s (i :: is) = M.edge s i :: M.edges (M.step s i).1 is := rfl

@[simp] theorem final_nil (s : σ) : M.final s [] = s := rfl

@[simp] theorem final_cons (s : σ) (i : ι) (is : List ι) :
    M.final s (i :: is) = M.final (M.step s i).1 is := rfl

theorem final_append (s : σ) (is js : List ι) :
    M.final s (is ++ js) = M.final (M.final s is) js := by
  induction is generalizing s with
  | nil => rfl
  | cons i is ih => exact ih _

theorem edges_append (s : σ) (is js : List ι) :
    M.edges s (is ++ js) = M.edges s is ++ M.edges (M.final s is) js := by
  induction is generalizing s with
  | nil => rfl
  | cons i is ih => simp [ih]

theorem final_snoc (s : σ) (is : List ι) (i : ι) :
    M.final s (is ++ [i]) = (M.step (M.final s is) i).1 := by
  rw [final_append]; rfl

theorem edges_snoc (s : σ) (is : List ι) (i : ι) :
    M.edges s (is ++ [i]) = M.edges s is ++ [M.edge (M.final s is) i] := by
  rw [edges_append]; rfl

/-- `P` holds at every edge of the run, given the edges before it. -/
def Along (s : σ) (is : List ι) (P : List (Edge σ ι ο) → Edge σ ι ο → Prop) : Prop :=
  ∀ js i ks, is = js ++ i :: ks → P (M.edges s js) (M.edge (M.final s js) i)

/-- `P` holds in every state the run visits, the first one included. -/
def Visits (s : σ) (is : List ι) (P : List (Edge σ ι ο) → σ → Prop) : Prop :=
  ∀ js ks, is = js ++ ks → P (M.edges s js) (M.final s js)

section Along

variable {M} {s : σ} {P Q G : List (Edge σ ι ο) → Edge σ ι ο → Prop}
  {I : List (Edge σ ι ο) → σ → Prop}

theorem along_nil : M.Along s [] P := by
  intro js i ks h
  simp at h

theorem along_snoc {is : List ι} {i : ι} :
    M.Along s (is ++ [i]) P ↔ M.Along s is P ∧ P (M.edges s is) (M.edge (M.final s is) i) := by
  refine ⟨?_, ?_⟩
  · intro h
    refine ⟨fun js j ks e => h js j (ks ++ [i]) (by simp [e]), h is i [] rfl⟩
  · rintro ⟨h, hi⟩ js j ks e
    rcases List.eq_nil_or_concat ks with rfl | ⟨ks', k, rfl⟩
    · obtain ⟨rfl, ej⟩ := List.append_inj' e rfl
      obtain rfl : i = j := by simpa using ej
      exact hi
    · have e' : is ++ [i] = (js ++ j :: ks') ++ [k] := by simpa using e
      exact h js j ks' (List.append_inj' e' rfl).1

theorem along_true {is : List ι} : M.Along s is fun _ _ => True := fun _ _ _ _ => trivial

theorem along_cons {i : ι} {is : List ι} (h : P [] (M.edge s i))
    (ht : M.Along (M.step s i).1 is fun past e => P (M.edge s i :: past) e) :
    M.Along s (i :: is) P := by
  rintro (_ | ⟨j, js⟩) k ks e
  · obtain ⟨rfl, rfl⟩ : i = k ∧ is = ks := by simpa using e
    exact h
  · obtain ⟨rfl, e'⟩ : i = j ∧ is = js ++ k :: ks := by simpa using e
    exact ht js k ks e'

theorem Along.append {is js : List ι} (h : M.Along s is P)
    (ht : M.Along (M.final s is) js fun past e => P (M.edges s is ++ past) e) :
    M.Along s (is ++ js) P := by
  induction js using List.reverseRecOn with
  | nil => simpa using h
  | append_singleton js i ih =>
    obtain ⟨hjs, hi⟩ := along_snoc.mp ht
    rw [← List.append_assoc]
    refine along_snoc.mpr ⟨ih hjs, ?_⟩
    rwa [M.edges_append, M.final_append]

theorem visits_nil (h : I [] s) : M.Visits s [] I := by
  rintro js ks e
  obtain ⟨rfl, rfl⟩ := List.append_eq_nil_iff.mp e.symm
  exact h

theorem visits_cons {i : ι} {is : List ι} (h : I [] s)
    (ht : M.Visits (M.step s i).1 is fun past t => I (M.edge s i :: past) t) :
    M.Visits s (i :: is) I := by
  rintro (_ | ⟨j, js⟩) ks e
  · exact h
  · obtain ⟨rfl, e'⟩ : i = j ∧ is = js ++ ks := by simpa using e
    exact ht js ks e'

/-- What holds of every input holds of the input of every edge. -/
theorem along_of_forall_mem {p : ι → Prop} {is : List ι} (h : ∀ i ∈ is, p i) :
    M.Along s is fun _ e => p e.input := by
  rintro js i ks rfl
  exact h i (by simp)

theorem Visits.mono {J : List (Edge σ ι ο) → σ → Prop} {is : List ι} (h : M.Visits s is I)
    (hIJ : ∀ past t, I past t → J past t) : M.Visits s is J := fun js ks e => hIJ _ _ (h js ks e)

theorem Visits.final {is : List ι} (h : M.Visits s is I) : I (M.edges s is) (M.final s is) :=
  h is [] (List.append_nil is).symm

theorem Visits.take {is js : List ι} (h : M.Visits s (is ++ js) I) : M.Visits s is I :=
  fun ks ls e => h ks (ls ++ js) (by simp [e])

theorem Visits.drop {is js : List ι} (h : M.Visits s (is ++ js) I) :
    M.Visits (M.final s is) js fun past t => I (M.edges s is ++ past) t := by
  rintro ks ls rfl
  have hs := h (is ++ ks) ls (by simp)
  rwa [M.edges_append, M.final_append] at hs

theorem Along.take {is js : List ι} (h : M.Along s (is ++ js) P) : M.Along s is P :=
  fun ks i ls e => h ks i (ls ++ js) (by simp [e])

theorem Along.drop {is js : List ι} (h : M.Along s (is ++ js) P) :
    M.Along (M.final s is) js fun past e => P (M.edges s is ++ past) e := by
  rintro ks i ls rfl
  have hi := h (is ++ ks) i ls (by simp)
  rwa [M.edges_append, M.final_append] at hi

/-- A property that fails along a run fails first at some edge. -/
theorem exists_first_of_not_along {is : List ι} (h : ¬ M.Along s is P) :
    ∃ js i ks, is = js ++ i :: ks ∧ M.Along s js P ∧
      ¬ P (M.edges s js) (M.edge (M.final s js) i) := by
  induction is using List.reverseRecOn with
  | nil => exact absurd along_nil h
  | append_singleton is i ih =>
    by_cases his : M.Along s is P
    · exact ⟨is, i, [], rfl, his, fun hi => h (along_snoc.mpr ⟨his, hi⟩)⟩
    · obtain ⟨js, j, ks, rfl, hjs, hj⟩ := ih his
      exact ⟨js, j, ks ++ [i], by simp, hjs, hj⟩

theorem Along.mono {is : List ι} (h : M.Along s is P) (hPQ : ∀ past e, P past e → Q past e) :
    M.Along s is Q := fun js i ks e => hPQ _ _ (h js i ks e)

/-- **Induction over a run**: what every allowed edge preserves holds at the end. -/
theorem Along.invariant (h0 : I [] s)
    (hstep : ∀ past t i, I past t → G past (M.edge t i) → I (past ++ [M.edge t i]) (M.step t i).1)
    {is : List ι} (h : M.Along s is G) : I (M.edges s is) (M.final s is) := by
  induction is using List.reverseRecOn with
  | nil => exact h0
  | append_singleton is i ih =>
    obtain ⟨h, hi⟩ := along_snoc.mp h
    rw [M.edges_snoc, M.final_snoc]
    exact hstep _ _ _ (ih h) hi

/-- The invariant holds at every state of the run, not only at its end. -/
theorem Along.visits (h0 : I [] s)
    (hstep : ∀ past t i, I past t → G past (M.edge t i) → I (past ++ [M.edge t i]) (M.step t i).1)
    {is : List ι} (h : M.Along s is G) : M.Visits s is I := by
  rintro js ks rfl
  exact h.take.invariant h0 hstep

/-- What the invariant implies of one more allowed edge holds at every edge. -/
theorem Along.of_visits {is : List ι} (h : M.Along s is G) (hI : M.Visits s is I)
    (hP : ∀ past t i, I past t → G past (M.edge t i) → P past (M.edge t i)) : M.Along s is P := by
  rintro js i ks rfl
  exact hP _ _ _ (hI js (i :: ks) rfl) (h js i ks rfl)

/-- Properties that the invariant makes the same at an edge are the same along a run. -/
theorem along_congr {is : List ι} (hI : M.Visits s is I)
    (hPQ : ∀ past t i, I past t → (P past (M.edge t i) ↔ Q past (M.edge t i))) :
    M.Along s is P ↔ M.Along s is Q := by
  refine ⟨fun h => ?_, fun h => ?_⟩
  · exact h.of_visits hI fun past t i hi hp => (hPQ past t i hi).mp hp
  · exact h.of_visits hI fun past t i hi hq => (hPQ past t i hi).mpr hq

/-- What holds in every visited state holds at both ends of every edge. -/
theorem Visits.along {is : List ι} (h : M.Visits s is I) :
    M.Along s is fun past e => I past e.src ∧ I (past ++ [e]) e.dst := by
  rintro js i ks rfl
  have hn := h (js ++ [i]) ks (by simp)
  rw [M.edges_snoc, M.final_snoc] at hn
  exact ⟨h js (i :: ks) rfl, hn⟩

theorem Along.and {is : List ι} (hP : M.Along s is P) (hQ : M.Along s is Q) :
    M.Along s is fun past e => P past e ∧ Q past e :=
  fun js i ks e => ⟨hP js i ks e, hQ js i ks e⟩

/-- A property that follows from an invariant holds all along a run exactly when the run's edges
are all allowed, in the runs whose edges satisfy `A`: allowed edges keep the invariant, and an edge
that is not allowed breaks the property. -/
theorem visits_iff_along_of_invariant {A : List (Edge σ ι ο) → Edge σ ι ο → Prop}
    {J : List (Edge σ ι ο) → σ → Prop} {is : List ι} (hA : M.Along s is A) (h0 : I [] s)
    (hIJ : ∀ past t, I past t → J past t)
    (hstep : ∀ past t i, I past t → A past (M.edge t i) → G past (M.edge t i) →
      I (past ++ [M.edge t i]) (M.step t i).1)
    (hback : ∀ past t i, I past t → A past (M.edge t i) →
      J (past ++ [M.edge t i]) (M.step t i).1 → G past (M.edge t i)) :
    M.Visits s is J ↔ M.Along s is G := by
  have hforth : ∀ {js}, M.Along s js A → M.Along s js G → M.Visits s js I := by
    intro js hA hG
    exact (hA.and hG).visits h0 fun past t i hi hg => hstep past t i hi hg.1 hg.2
  refine ⟨?_, ?_⟩
  · intro h
    induction is using List.reverseRecOn with
    | nil => exact along_nil
    | append_singleton js i ih =>
      obtain ⟨hAjs, hAi⟩ := along_snoc.mp hA
      have hG := ih hAjs fun ks ls e => h ks (ls ++ [i]) (by simp [e])
      have hI := (hforth hAjs hG).final
      have hJ := h.final
      rw [M.edges_snoc, M.final_snoc] at hJ
      exact along_snoc.mpr ⟨hG, hback _ _ i hI hAi hJ⟩
  · exact fun hG => (hforth hA hG).mono hIJ

/-- An invariant that one step keeps exactly when its edge is allowed. -/
theorem visits_iff_along {A : List (Edge σ ι ο) → Edge σ ι ο → Prop} {is : List ι}
    (hA : M.Along s is A) (h0 : I [] s)
    (hstep : ∀ past t i, I past t → A past (M.edge t i) →
      (I (past ++ [M.edge t i]) (M.step t i).1 ↔ G past (M.edge t i))) :
    M.Visits s is I ↔ M.Along s is G :=
  visits_iff_along_of_invariant hA h0 (fun _ _ hi => hi)
    (fun past t i hi ha => (hstep past t i hi ha).mpr)
    fun past t i hi ha => (hstep past t i hi ha).mp

/-- **A potential**: along edges that keep the invariant and lower the potential by one where `p`
holds, `p` holds no more often than the potential was. -/
theorem Along.potential {w : σ → Nat} {p : Edge σ ι ο → Bool} {G : Edge σ ι ο → Prop}
    {I : σ → Prop} (h0 : I s)
    (hstep : ∀ t i, I t → G (M.edge t i) →
      I (M.step t i).1 ∧ w (M.step t i).1 + (if p (M.edge t i) then 1 else 0) ≤ w t)
    {is : List ι} (h : M.Along s is fun _ e => G e) :
    w (M.final s is) + (M.edges s is).countP p ≤ w s := by
  induction is generalizing s with
  | nil => exact Nat.le_refl _
  | cons i is ih =>
    obtain ⟨hi, hw⟩ := hstep s i h0 (h [] i is rfl)
    have hrest := ih hi fun js j ks e => h (i :: js) j ks (by rw [e]; rfl)
    rw [M.final_cons, M.edges_cons, List.countP_cons]
    omega

end Along

/-- What `f` last read off an edge. -/
def latest {α : Type} (f : Edge σ ι ο → Option α) (past : List (Edge σ ι ο)) : Option α :=
  past.foldl (fun a e => (f e).or a) none

@[simp] theorem latest_nil {α : Type} (f : Edge σ ι ο → Option α) : latest f [] = none := rfl

@[simp] theorem latest_snoc {α : Type} (f : Edge σ ι ο → Option α) (past : List (Edge σ ι ο))
    (e : Edge σ ι ο) : latest f (past ++ [e]) = (f e).or (latest f past) := by
  simp [latest, List.foldl_append]

theorem invariant {I : σ → Prop} (hstep : ∀ t i, I t → I (M.step t i).1) {s : σ} (h0 : I s)
    (is : List ι) : I (M.final s is) := by
  induction is generalizing s with
  | nil => exact h0
  | cons i is ih => exact ih (hstep s i h0)

theorem visits_invariant {I : σ → Prop} (hstep : ∀ t i, I t → I (M.step t i).1) {s : σ} (h0 : I s)
    (is : List ι) : M.Visits s is fun _ t => I t :=
  fun js _ _ => M.invariant hstep h0 js

/-! ## Inputs that leave no trace -/

/-- The inputs marked `false` satisfy `D` where they are taken. -/
def OnlyDrops (D : σ → ι → Prop) : σ → List (ι × Bool) → Prop
  | _, [] => True
  | s, (i, keep) :: is => (keep = false → D s i) ∧ OnlyDrops D (M.step s i).1 is

@[simp] theorem onlyDrops_nil (D : σ → ι → Prop) (s : σ) : M.OnlyDrops D s [] ↔ True := .rfl

@[simp] theorem onlyDrops_cons (D : σ → ι → Prop) (s : σ) (i : ι) (keep : Bool)
    (is : List (ι × Bool)) :
    M.OnlyDrops D s ((i, keep) :: is) ↔
      (keep = false → D s i) ∧ M.OnlyDrops D (M.step s i).1 is := .rfl

def kept (is : List (ι × Bool)) : List ι := (is.filter (·.2)).map (·.1)

def keptOutputs : σ → List (ι × Bool) → List ο
  | _, [] => []
  | s, (i, keep) :: is =>
    if keep then (M.step s i).2 :: keptOutputs (M.step s i).1 is
    else keptOutputs (M.step s i).1 is

@[simp] theorem kept_cons_true (i : ι) (is : List (ι × Bool)) :
    kept ((i, true) :: is) = i :: kept is := rfl

@[simp] theorem kept_cons_false (i : ι) (is : List (ι × Bool)) :
    kept ((i, false) :: is) = kept is := rfl

variable {M}

theorem final_kept {D : σ → ι → Prop} (hD : ∀ s i, D s i → (M.step s i).1 = s)
    (is : List (ι × Bool)) {s : σ} (h : M.OnlyDrops D s is) :
    M.final s (kept is) = M.final s (is.map (·.1)) := by
  induction is generalizing s with
  | nil => rfl
  | cons p is ih =>
    obtain ⟨i, keep⟩ := p
    cases keep with
    | true => exact ih h.2
    | false =>
      have hs := hD s i (h.1 rfl)
      have := ih h.2
      rw [hs] at this
      simpa [hs] using this

theorem outputs_kept {D : σ → ι → Prop} (hD : ∀ s i, D s i → (M.step s i).1 = s)
    (is : List (ι × Bool)) {s : σ} (h : M.OnlyDrops D s is) :
    (M.edges s (kept is)).map (·.out) = M.keptOutputs s is := by
  induction is generalizing s with
  | nil => rfl
  | cons p is ih =>
    obtain ⟨i, keep⟩ := p
    cases keep with
    | true => simp [keptOutputs, ih h.2]
    | false =>
      have hs := hD s i (h.1 rfl)
      have := ih h.2
      rw [hs] at this
      simpa [keptOutputs, hs] using this

/-- What can be read off the outputs is the same when the dropped inputs show nothing. -/
theorem observed_kept {α : Type} (obs : ο → List α) {D : σ → ι → Prop}
    (hD : ∀ s i, D s i → (M.step s i).1 = s) (hobs : ∀ s i, D s i → obs (M.step s i).2 = [])
    (is : List (ι × Bool)) {s : σ} (h : M.OnlyDrops D s is) :
    (M.edges s (kept is)).flatMap (obs ·.out) =
      (M.edges s (is.map (·.1))).flatMap (obs ·.out) := by
  induction is generalizing s with
  | nil => rfl
  | cons p is ih =>
    obtain ⟨i, keep⟩ := p
    cases keep with
    | true => simp [ih h.2]
    | false =>
      have hs := hD s i (h.1 rfl)
      have ho := hobs s i (h.1 rfl)
      have := ih h.2
      rw [hs] at this
      simpa [hs, ho] using this

/-! ## Simulation -/

section Simulation

variable {σ' ι' ο' α : Type} {N : Machine σ' ι' ο'} {R : σ → σ' → Prop} {obs : ο → List α}
  {obs' : ο' → List α}

variable (M N R obs obs') in
/-- From related states, `N` has a run for every step of `M` that shows the same. -/
def Simulated : Prop :=
  ∀ s t i, R s t → ∃ js, R (M.step s i).1 (N.final t js) ∧
    (N.edges t js).flatMap (obs' ·.out) = obs (M.step s i).2

/-- It then has one for every run of `M`. -/
theorem Simulated.run (h : Simulated M N R obs obs') (is : List ι) {s : σ} {t : σ'} (hR : R s t) :
    ∃ js, R (M.final s is) (N.final t js) ∧
      (N.edges t js).flatMap (obs' ·.out) = (M.edges s is).flatMap (obs ·.out) := by
  induction is generalizing s t with
  | nil => exact ⟨[], hR, rfl⟩
  | cons i is ih =>
    obtain ⟨js, hjs, hout⟩ := h s t i hR
    obtain ⟨ks, hks, hrest⟩ := ih hjs
    refine ⟨js ++ ks, ?_, ?_⟩
    · rw [N.final_append]
      exact hks
    · rw [N.edges_append, List.flatMap_append, hout, hrest]
      rfl

variable {G : Edge σ ι ο → Prop} {seen : Edge σ ι ο → List α} {seen' : Edge σ' ι' ο' → List α}

variable (M N R G seen seen') in
/-- From related states, `N` has a run for every step of `M` that `G` allows, with the same seen
of both. -/
def Refines : Prop :=
  ∀ s t i, R s t → G (M.edge s i) → ∃ js, R (M.step s i).1 (N.final t js) ∧
    (N.edges t js).flatMap seen' = seen (M.edge s i)

/-- It then has one for every run of allowed steps. -/
theorem Refines.run (h : Refines M N R G seen seen') {is : List ι} {s : σ} {t : σ'}
    (hG : M.Along s is fun _ e => G e) (hR : R s t) :
    ∃ js, R (M.final s is) (N.final t js) ∧
      (N.edges t js).flatMap seen' = (M.edges s is).flatMap seen := by
  induction is using List.reverseRecOn with
  | nil => exact ⟨[], hR, rfl⟩
  | append_singleton is i ih =>
    obtain ⟨his, hi⟩ := along_snoc.mp hG
    obtain ⟨js, hjs, hout⟩ := ih his
    obtain ⟨ks, hks, hlast⟩ := h _ _ i hjs hi
    refine ⟨js ++ ks, ?_, ?_⟩
    · rw [N.final_append, M.final_snoc]
      exact hks
    · rw [N.edges_append, M.edges_snoc, List.flatMap_append, List.flatMap_append, hout, hlast]
      simp

end Simulation

/-- **A monitor** that reads what is seen of a machine: when it goes along with every step, it goes
along with every run. -/
theorem monitored {τ α : Type} {seen : Edge σ ι ο → List α} {f : τ → α → Option τ}
    {R : σ → τ → Prop}
    (hstep : ∀ s i t, R s t →
      ∃ t', (seen (M.edge s i)).foldlM f t = some t' ∧ R (M.step s i).1 t')
    (is : List ι) {s : σ} {t : τ} (hR : R s t) :
    ∃ t', ((M.edges s is).flatMap seen).foldlM f t = some t' ∧ R (M.final s is) t' := by
  induction is generalizing s t with
  | nil => exact ⟨t, rfl, hR⟩
  | cons i is ih =>
    obtain ⟨t₁, hstep₁, hR₁⟩ := hstep s i t hR
    obtain ⟨t₂, hrest, hR₂⟩ := ih hR₁
    refine ⟨t₂, ?_, hR₂⟩
    rw [M.edges_cons, List.flatMap_cons, List.foldlM_append, hstep₁]
    exact hrest

end Machine

/-! ## Restarts -/

/-- An input of a machine that is restarted now and then, each time with a `ρ`. -/
inductive Life (ι ρ : Type) where
  | step (i : ι)
  | restart (r : ρ)

/-- The machine with restarts. -/
def Machine.restarting {σ ι ο ρ : Type} (M : Machine σ ι ο) (restart : σ → ρ → σ × ο) :
    Machine σ (Life ι ρ) ο where
  step s
    | .step i => M.step s i
    | .restart r => restart s r

/-- The step of the machine, unless it is a restart. -/
def Edge.inLife {σ ι ο ρ : Type} (e : Edge σ (Life ι ρ) ο) : Option (Edge σ ι ο) :=
  match e.input with
  | .step i => some ⟨e.src, i, e.out, e.dst⟩
  | .restart _ => none

end Reactive

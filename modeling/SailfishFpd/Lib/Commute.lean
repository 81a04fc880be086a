import Mathlib.Data.List.Pairwise
import SailfishFpd.Lib.Machine

/-!
# Inputs that commute

Two inputs commute in a state when both orders leave the same state and give
each of them the same output. The inputs of a run come from two sides, and two
runs can interleave the same two sides differently. When every input is
independent of the inputs of the other side that it has on its other hand in the
other run, the two runs are the same run: `Reordering.sameRun`.
-/

namespace Reactive

namespace Machine

variable {σ ι ο : Type} (M : Machine σ ι ο)

/-- In either order, `i` and `j` leave the same state and get the same outputs. -/
structure Commutes (s : σ) (i j : ι) : Prop where
  state : (M.step (M.step s i).1 j).1 = (M.step (M.step s j).1 i).1
  left : (M.step (M.step s j).1 i).2 = (M.step s i).2
  right : (M.step (M.step s i).1 j).2 = (M.step s j).2

/-- Independent inputs commute, and remain independent of what else is brought before them. -/
structure Independence (D : σ → ι → ι → Prop) : Prop where
  commutes : ∀ {s i j}, D s i j → M.Commutes s i j
  stable : ∀ {s i j k}, D s i j → D s i k → D (M.step s j).1 i k

def sideOutputs (p : ι → Bool) (s : σ) (is : List ι) : List ο :=
  ((M.edges s is).filter (p ·.input)).map (·.out)

variable {M} {D : σ → ι → ι → Prop} {p : ι → Bool}

theorem sideOutputs_cons (s : σ) (i : ι) (is : List ι) :
    M.sideOutputs p s (i :: is) =
      (if p i then [(M.step s i).2] else []) ++ M.sideOutputs p (M.step s i).1 is := by
  by_cases hi : p i <;> simp [sideOutputs, hi]

/-- An input can be taken after inputs that it is independent of. -/
theorem Independence.bring (hD : M.Independence D) {s : σ} {i : ι} {js : List ι}
    (h : ∀ j ∈ js, D s i j) :
    M.final (M.step s i).1 js = (M.step (M.final s js) i).1 ∧
      (M.step (M.final s js) i).2 = (M.step s i).2 ∧
      (M.edges (M.step s i).1 js).map (·.out) = (M.edges s js).map (·.out) := by
  induction js generalizing s with
  | nil => exact ⟨rfl, rfl, rfl⟩
  | cons j js ih =>
    have hj := h j List.mem_cons_self
    have hc := hD.commutes hj
    obtain ⟨hfinal, hout, houts⟩ := ih (s := (M.step s j).1) fun k hk =>
      hD.stable hj (h k (List.mem_cons_of_mem _ hk))
    refine ⟨?_, ?_, ?_⟩
    · rw [M.final_cons, hc.state, hfinal]
      rfl
    · exact hout.trans hc.left
    · rw [M.edges_cons, M.edges_cons, List.map_cons, List.map_cons, hc.state, houts]
      exact congrArg (· :: _) hc.right

/-- The two runs end in the same state and give every input the same output. -/
structure SameRun (M : Machine σ ι ο) (p : ι → Bool) (s : σ) (is js : List ι) : Prop where
  final : M.final s is = M.final s js
  left : M.sideOutputs p s is = M.sideOutputs p s js
  right : M.sideOutputs (fun i => !p i) s is = M.sideOutputs (fun i => !p i) s js

theorem SameRun.symm {s : σ} {is js : List ι} (h : M.SameRun p s is js) : M.SameRun p s js is :=
  ⟨h.final.symm, h.left.symm, h.right.symm⟩

theorem SameRun.trans {s : σ} {is js ks : List ι} (h : M.SameRun p s is js)
    (h' : M.SameRun p s js ks) : M.SameRun p s is ks :=
  ⟨h.final.trans h'.final, h.left.trans h'.left, h.right.trans h'.right⟩

theorem SameRun.cons {s : σ} {i : ι} {is js : List ι} (h : M.SameRun p (M.step s i).1 is js) :
    M.SameRun p s (i :: is) (i :: js) := by
  refine ⟨h.final, ?_, ?_⟩
  · rw [sideOutputs_cons, sideOutputs_cons, h.left]
  · rw [sideOutputs_cons, sideOutputs_cons, h.right]

theorem sideOutputs_append (s : σ) (is js : List ι) :
    M.sideOutputs p s (is ++ js) = M.sideOutputs p s is ++ M.sideOutputs p (M.final s is) js := by
  simp [sideOutputs, M.edges_append]

theorem sideOutputs_of_forall {js : List ι} (h : ∀ j ∈ js, p j = true) (s : σ) :
    M.sideOutputs p s js = (M.edges s js).map (·.out) := by
  induction js generalizing s with
  | nil => rfl
  | cons j js ih =>
    simp [sideOutputs_cons, h j List.mem_cons_self,
      ih fun k hk => h k (List.mem_cons_of_mem _ hk)]

theorem sideOutputs_of_forall_not {js : List ι} (h : ∀ j ∈ js, p j = true) (s : σ) :
    M.sideOutputs (fun i => !p i) s js = [] := by
  induction js generalizing s with
  | nil => rfl
  | cons j js ih =>
    simp [sideOutputs_cons, h j List.mem_cons_self,
      ih fun k hk => h k (List.mem_cons_of_mem _ hk)]

/-- An input that is brought forward past inputs of the other side changes nothing. -/
theorem Independence.sameRun_bring (hD : M.Independence D) {s : σ} {i : ι} {js ks : List ι}
    (hi : p i = false) (hjs : ∀ j ∈ js, p j = true) (h : ∀ j ∈ js, D s i j) :
    M.SameRun p s (i :: (js ++ ks)) (js ++ i :: ks) := by
  obtain ⟨hfinal, hout, houts⟩ := hD.bring h
  refine ⟨?_, ?_, ?_⟩
  · rw [M.final_cons, M.final_append, M.final_append, hfinal]
    rfl
  · have hside : M.sideOutputs p (M.step s i).1 js = M.sideOutputs p s js := by
      rw [sideOutputs_of_forall hjs, sideOutputs_of_forall hjs, houts]
    simp [sideOutputs_cons, sideOutputs_append, hi, hside, hfinal]
  · have hnone := sideOutputs_of_forall_not (M := M) hjs
    simp [sideOutputs_cons, sideOutputs_append, hi, hnone, hfinal, hout]

/-! ## Two interleavings of the same two sides -/

/-- Where `js` has taken inputs of the side `p` that `is` has still to take, the input that comes
next in both, one of the other side, is independent of them. -/
def Permits (M : Machine σ ι ο) (D : σ → ι → ι → Prop) (p : ι → Bool) (s : σ) (is js : List ι) :
    Prop :=
  ∀ xs i ys xs' ys', is = xs ++ i :: ys → js = xs' ++ i :: ys' → p i = false →
    (xs.filter fun i => !p i) = (xs'.filter fun i => !p i) →
    ∀ j ∈ (xs'.filter p).drop (xs.filter p).length, D (M.final s xs) i j

/-- The two runs take the same inputs on each side, and only independent inputs change places. -/
structure Reordering (M : Machine σ ι ο) (D : σ → ι → ι → Prop) (p : ι → Bool) (s : σ)
    (is js : List ι) : Prop where
  left : is.filter p = js.filter p
  right : (is.filter fun i => !p i) = js.filter fun i => !p i
  forth : M.Permits D p s is js
  back : M.Permits D p s js is

theorem Reordering.symm {s : σ} {is js : List ι} (h : M.Reordering D p s is js) :
    M.Reordering D p s js is := ⟨h.left.symm, h.right.symm, h.back, h.forth⟩

theorem reordering_nil (s : σ) : M.Reordering D p s [] [] := by
  have hnone : M.Permits D p s [] [] := by
    intro xs i ys xs' ys' h
    simp at h
  exact ⟨rfl, rfl, hnone, hnone⟩

theorem permits_cons {s : σ} {i : ι} {is js : List ι} (hi : p i = true) :
    M.Permits D p s (i :: is) (i :: js) ↔ M.Permits D p (M.step s i).1 is js := by
  refine ⟨fun h xs k ys xs' ys' e e' hk hs => ?_, fun h xs k ys xs' ys' e e' hk hs => ?_⟩
  · have hm := h (i :: xs) k ys (i :: xs') ys' (by simp [e]) (by simp [e']) hk (by simp [hi, hs])
    simpa [hi] using hm
  · -- `k` is on the other side, so it is not the first input of either run
    rcases xs with _ | ⟨x, xs⟩
    · obtain ⟨rfl, -⟩ : i = k ∧ is = ys := by simpa using e
      simp [hi] at hk
    · rcases xs' with _ | ⟨x', xs'⟩
      · obtain ⟨rfl, -⟩ : i = k ∧ js = ys' := by simpa using e'
        simp [hi] at hk
      · obtain ⟨rfl, he⟩ : i = x ∧ is = xs ++ k :: ys := by simpa using e
        obtain ⟨rfl, he'⟩ : i = x' ∧ js = xs' ++ k :: ys' := by simpa using e'
        have hm := h xs k ys xs' ys' he he' hk (by simpa [hi] using hs)
        simpa [hi] using hm

section Pass

variable {s : σ} {i : ι} {is js ks : List ι} (hi : p i = false) (hjs : ∀ j ∈ js, p j = true)
include hjs

/-- An input of the other side comes after all of `js`. -/
theorem eq_append_of_append_eq {k : ι} {xs ys : List ι} (hk : p k = false)
    (h : js ++ ks = xs ++ k :: ys) : ∃ zs, xs = js ++ zs ∧ ks = zs ++ k :: ys := by
  rcases List.append_eq_append_iff.mp h with ⟨zs, hxs, hks⟩ | ⟨zs, hxs, hks⟩
  · exact ⟨zs, hxs, hks⟩
  · rcases zs with _ | ⟨z, zs⟩
    · exact ⟨[], by simp [hxs], by simpa using hks.symm⟩
    · obtain ⟨rfl, -⟩ : k = z ∧ ys = zs ++ ks := by simpa using hks
      simp [hjs k (by simp [hxs])] at hk

include hi

theorem permits_pass :
    M.Permits D p s (i :: is) (js ++ i :: ks) ↔
      (∀ j ∈ js, D s i j) ∧ M.Permits D p (M.step s i).1 is (js ++ ks) := by
  have hfilter : js.filter p = js := List.filter_eq_self.mpr hjs
  have hnone : (js.filter fun j => !p j) = [] := by simpa using hjs
  refine ⟨fun h => ⟨?_, fun xs k ys xs' ys' e e' hk hs => ?_⟩, 
    fun h xs k ys xs' ys' e e' hk hs => ?_⟩
  · have hm := h [] i is js ks rfl rfl hi (by simp [hnone])
    simpa [hfilter] using hm
  · obtain ⟨zs, rfl, rfl⟩ := eq_append_of_append_eq hjs hk e'
    have hm := h (i :: xs) k ys (js ++ i :: zs) ys' (by simp [e]) (by simp) hk
      (by simpa [hi, hnone] using hs)
    simpa [hi] using hm
  · obtain ⟨zs, rfl, hzs⟩ := eq_append_of_append_eq hjs hk e'
    rcases xs with _ | ⟨x, xs⟩
    · obtain ⟨rfl, -⟩ : i = k ∧ is = ys := by simpa using e
      rcases zs with _ | ⟨z, zs⟩
      · simpa [hfilter] using h.1
      · obtain ⟨rfl, -⟩ : i = z ∧ ks = zs ++ i :: ys' := by simpa using hzs
        simp [hi] at hs
    · obtain ⟨rfl, he⟩ : i = x ∧ is = xs ++ k :: ys := by simpa using e
      rcases zs with _ | ⟨z, zs⟩
      · simp [hi, hnone] at hs
      · obtain ⟨rfl, he'⟩ : i = z ∧ ks = zs ++ k :: ys' := by simpa using hzs
        have hm := h.2 xs k ys (js ++ zs) ys' he (by simp [he']) hk (by simpa [hi, hnone] using hs)
        simpa [hi] using hm

theorem permits_bring (hD : M.Independence D) (hind : ∀ j ∈ js, D s i j) :
    M.Permits D p s (js ++ i :: ks) (i :: is) ↔ M.Permits D p (M.step s i).1 (js ++ ks) is := by
  have hnone : (js.filter fun j => !p j) = [] := by simpa using hjs
  have hfinal : ∀ zs, M.final s (js ++ i :: zs) = M.final (M.step s i).1 (js ++ zs) := by
    intro zs
    rw [M.final_append, M.final_append, (hD.bring hind).1]
    rfl
  refine ⟨fun h xs k ys xs' ys' e e' hk hs => ?_, fun h xs k ys xs' ys' e e' hk hs => ?_⟩
  · obtain ⟨zs, rfl, rfl⟩ := eq_append_of_append_eq hjs hk e
    have hm := h (js ++ i :: zs) k ys (i :: xs') ys' (by simp) (by simp [e']) hk
      (by simpa [hi, hnone] using hs)
    simpa [hi, hfinal] using hm
  · obtain ⟨zs, rfl, hzs⟩ := eq_append_of_append_eq hjs hk e
    rcases zs with _ | ⟨z, zs⟩
    · obtain ⟨rfl, -⟩ : i = k ∧ ks = ys := by simpa using hzs
      rcases xs' with _ | ⟨x', xs'⟩
      · simp
      · obtain ⟨rfl, -⟩ : i = x' ∧ is = xs' ++ i :: ys' := by simpa using e'
        simp [hi, hnone] at hs
    · obtain ⟨rfl, he⟩ : i = z ∧ ks = zs ++ k :: ys := by simpa using hzs
      rcases xs' with _ | ⟨x', xs'⟩
      · simp [hi] at hs
      · obtain ⟨rfl, he'⟩ : i = x' ∧ is = xs' ++ k :: ys' := by simpa using e'
        have hm := h (js ++ zs) k ys xs' ys' (by simp [he]) he' hk (by simpa [hi, hnone] using hs)
        simpa [hi, hfinal] using hm

end Pass

theorem reordering_cons {s : σ} {i : ι} {is js : List ι} (hi : p i = true) :
    M.Reordering D p s (i :: is) (i :: js) ↔ M.Reordering D p (M.step s i).1 is js := by
  refine ⟨fun h => ⟨?_, ?_, (permits_cons hi).mp h.forth, (permits_cons hi).mp h.back⟩,
    fun h => ⟨?_, ?_, (permits_cons hi).mpr h.forth, (permits_cons hi).mpr h.back⟩⟩
  · simpa [hi] using h.left
  · simpa [hi] using h.right
  · simpa [hi] using h.left
  · simpa [hi] using h.right

/-- An input of the other side that comes first in one run is independent of what the other run has
before it, and the runs go on as reorderings of one another. -/
theorem reordering_append (hD : M.Independence D) (js : List ι) {s : σ} {i : ι} {is ks : List ι}
    (hi : p i = false) (hjs : ∀ j ∈ js, p j = true) :
    M.Reordering D p s (i :: is) (js ++ i :: ks) ↔
      (∀ j ∈ js, D s i j) ∧ M.Reordering D p (M.step s i).1 is (js ++ ks) := by
  have hnone : (js.filter fun j => !p j) = [] := by simpa using hjs
  refine ⟨fun h => ?_, fun ⟨hind, h⟩ => ?_⟩
  · obtain ⟨hind, hforth⟩ := (permits_pass hi hjs).mp h.forth
    refine ⟨hind, ?_, ?_, hforth, (permits_bring hi hjs hD hind).mp h.back⟩
    · simpa [hi] using h.left
    · simpa [hi, hnone] using h.right
  · refine ⟨?_, ?_, (permits_pass hi hjs).mpr ⟨hind, h.forth⟩,
      (permits_bring hi hjs hD hind).mpr h.back⟩
    · simpa [hi] using h.left
    · simpa [hi, hnone] using h.right

/-- Up to the first input of the other side, a run has only inputs of the side `p`. -/
theorem exists_of_filter {i : ι} {is js : List ι} (h : (is.filter fun i => !p i) = i :: js) :
    ∃ ks ls, is = ks ++ i :: ls ∧ (∀ k ∈ ks, p k = true) ∧ p i = false := by
  obtain ⟨ks, ls, e, hks, hi, -⟩ := List.filter_eq_cons_iff.mp h
  exact ⟨ks, ls, e, by simpa using hks, by simpa using hi⟩

/-- **The order does not matter**, where only independent inputs change places. -/
theorem Reordering.sameRun (hD : M.Independence D) {s : σ} {is js : List ι}
    (h : M.Reordering D p s is js) : M.SameRun p s is js := by
  induction hn : is.length generalizing s is js with
  | zero =>
    obtain rfl := List.length_eq_zero_iff.mp hn
    obtain rfl : js = [] := by
      refine List.eq_nil_iff_forall_not_mem.mpr fun j hj => ?_
      by_cases hp : p j
      · exact List.not_mem_nil (h.left ▸ List.mem_filter.mpr ⟨hj, hp⟩)
      · exact List.not_mem_nil (h.right ▸ List.mem_filter.mpr ⟨hj, by simpa using hp⟩)
    exact ⟨rfl, rfl, rfl⟩
  | succ n ih =>
    obtain ⟨i, is, rfl⟩ := List.exists_cons_of_length_eq_add_one hn
    have hlen : is.length = n := by simpa using hn
    cases hi : p i with
    | false =>
      -- `js` takes `i` after inputs that `i` is independent of
      have hjs : (js.filter fun i => !p i) = i :: is.filter fun i => !p i := by
        rw [← h.right]
        simp [hi]
      obtain ⟨cs, ks, rfl, hcs, -⟩ := exists_of_filter hjs
      obtain ⟨hind, hrest⟩ := (reordering_append hD cs hi hcs).mp h
      exact (ih hrest hlen).cons.trans (hD.sameRun_bring hi hcs hind)
    | true =>
      rcases js with _ | ⟨j, js⟩
      · exact absurd h.left (by simp [hi])
      · cases hj : p j with
        | true =>
          obtain ⟨rfl, -⟩ : i = j ∧ is.filter p = js.filter p := by simpa [hi, hj] using h.left
          exact (ih ((reordering_cons hi).mp h) hlen).cons
        | false =>
          -- the same with the two runs exchanged
          have his : ((i :: is).filter fun i => !p i) = j :: js.filter fun i => !p i := by
            rw [h.right]
            simp [hj]
          obtain ⟨cs, ks, e, hcs, -⟩ := exists_of_filter his
          rw [e] at h hn ⊢
          obtain ⟨hind, hrest⟩ := (reordering_append hD cs hj hcs).mp h.symm
          have hsame := ih hrest.symm (by simp at hn; simp; omega)
          exact (hD.sameRun_bring hj hcs hind).symm.trans hsame.cons

end Machine

end Reactive

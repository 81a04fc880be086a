import Mathlib.Data.Rat.Floor
import Mathlib.Tactic.Linarith
import Mathlib.Tactic.Positivity
import SailfishFpd.Delivery
import SailfishFpd.QtStream

/-!
# Enrolment progress

`AndroidFP` learns the number of samples from the first callback of an enrolment
and reports the part that is done; the daemon turns it into a percentage. When
the HAL counts down, the percentages rise from `0` and reach `100` with the last
sample only.
-/

namespace SailfishFpd

open FPDCommunity
open Reactive.Machine (along_snoc)

/-! ## Percentages -/

/-- The part of an enrolment that is done when `remaining` samples are left, after `first` at its
first callback. -/
def fraction (first remaining : UInt32) : Rat := 1 - remaining.toNat / (first.toNat + 1)

theorem toPercent_of_nonneg {pc : Rat} (h : 0 ≤ pc) : toPercent (some pc) = some ⌊pc * 100⌋ := by
  have hpos : 0 ≤ pc * 100 := by positivity
  simp only [toPercent, Option.map_some, Option.some.injEq]
  rw [Int.tdiv_eq_ediv_of_nonneg (Rat.num_nonneg.mpr hpos), Rat.floor_def']

section Fraction

variable {first remaining : UInt32}

theorem fraction_bounds (h : remaining ≤ first) :
    0 ≤ fraction first remaining ∧ fraction first remaining ≤ 1 := by
  have hle : (remaining.toNat : Rat) ≤ first.toNat := by exact_mod_cast h
  have hpos : (0 : Rat) < first.toNat + 1 := by positivity
  have hfrac : (remaining.toNat : Rat) / (first.toNat + 1) ≤ 1 := by
    rw [div_le_one hpos]
    linarith
  have hnonneg : (0 : Rat) ≤ remaining.toNat / (first.toNat + 1) := by positivity
  unfold fraction
  refine ⟨?_, ?_⟩ <;> linarith

theorem fraction_anti {r r' : UInt32} (h : r ≤ r') : fraction first r' ≤ fraction first r := by
  have hle : (r.toNat : Rat) ≤ r'.toNat := by exact_mod_cast h
  have hpos : (0 : Rat) < first.toNat + 1 := by positivity
  have hfrac : (r.toNat : Rat) / (first.toNat + 1) ≤ r'.toNat / (first.toNat + 1) :=
    div_le_div_of_nonneg_right hle hpos.le
  unfold fraction
  linarith

theorem fraction_eq_one : fraction first remaining = 1 ↔ remaining = 0 := by
  have hpos : (first.toNat : Rat) + 1 ≠ 0 := by positivity
  rw [fraction, sub_eq_self, div_eq_zero_iff, or_iff_left hpos, Nat.cast_eq_zero]
  exact UInt32.toNat_inj (b := 0)

end Fraction

/-- The percentage that is shown when `remaining` samples are left. -/
def percent (first remaining : UInt32) : Int := ⌊fraction first remaining * 100⌋

section Percent

variable {first remaining : UInt32}

theorem toPercent_fraction (h : remaining ≤ first) :
    toPercent (some (fraction first remaining)) = some (percent first remaining) :=
  toPercent_of_nonneg (fraction_bounds h).1

theorem percent_bounds (h : remaining ≤ first) :
    0 ≤ percent first remaining ∧ percent first remaining ≤ 100 := by
  obtain ⟨hlow, hhigh⟩ := fraction_bounds h
  refine ⟨Int.floor_nonneg.mpr (by linarith), ?_⟩
  refine Int.floor_le_iff.mpr ?_
  push_cast
  linarith

theorem percent_anti {r r' : UInt32} (h : r ≤ r') : percent first r' ≤ percent first r := by
  have hanti : fraction first r' ≤ fraction first r := fraction_anti h
  exact Int.floor_mono (by linarith)

/-- Truncation does not reach `100` early. -/
theorem percent_eq_hundred (h : remaining ≤ first) :
    percent first remaining = 100 ↔ remaining = 0 := by
  obtain ⟨-, hhigh⟩ := fraction_bounds h
  have hone : fraction first remaining = 1 ↔ remaining = 0 := fraction_eq_one
  rw [← hone]
  refine ⟨fun hp => ?_, fun hf => ?_⟩
  · have hle : ((100 : Int) : Rat) ≤ fraction first remaining * 100 := Int.le_floor.mp hp.ge
    push_cast at hle
    linarith
  · rw [percent, hf]
    norm_num

end Percent

/-! ## The callbacks of an enrolment -/

/-- The HAL counts down: no value is above the one before, and the first can be counted up. -/
structure CountsDown (remainings : List UInt32) : Prop where
  sorted : remainings.Pairwise (· ≥ ·)
  first : ∀ first ∈ remainings.head?, first < 0xFFFFFFFF

theorem CountsDown.take {rs ts : List UInt32} (h : CountsDown (rs ++ ts)) : CountsDown rs := by
  refine ⟨(List.pairwise_append.mp h.sorted).1, fun first hf => h.first first ?_⟩
  cases rs with
  | nil => cases hf
  | cons a rs => exact hf

theorem CountsDown.le_first {rs : List UInt32} (h : CountsDown rs) {r : UInt32} (hr : r ∈ rs) :
    r ≤ rs.headD 0 := by
  cases rs with
  | nil => cases hr
  | cons first rs =>
    rcases List.mem_cons.mp hr with rfl | hr
    · exact UInt32.le_refl r
    · exact (List.pairwise_cons.mp h.sorted).1 r hr

/-- `m_enrollRemaining` after the callbacks with these values. -/
def learned : List UInt32 → Rat
  | [] => 0
  | first :: _ => if first = 0 then 0 else first.toNat + 1

/-- The percentage a progress signal is shown as. -/
def Signal.percent? : Signal → Option (Option Int)
  | .enrollProgress pc => some (toPercent pc)
  | _ => none

/-- The percentages that will be shown. -/
def percentsOf (signals : List Signal) : List (Option Int) := signals.filterMap Signal.percent?

def Output.percent? : Output → Option (Option Int)
  | .signal (.EnrollProgressChanged progress) => some progress
  | _ => none

/-- The percentages that are shown. -/
def percentsTold (out : List Output) : List (Option Int) := out.filterMap Output.percent?

theorem callback_counts (hal : Hal) {cb : Callback} (self : AndroidFP)
    (h : ∀ finger remaining, cb ≠ .enrollresult finger remaining) :
    (self.callback hal cb).self.m_enrollRemaining = self.m_enrollRemaining ∧
      percentsOf (self.callback hal cb).signals = [] := by
  cases cb with
  | enrollresult finger remaining => exact absurd rfl (h finger remaining)
  | acquired info => exact ⟨rfl, rfl⟩
  | authenticated finger =>
    by_cases hf : finger = 0 <;> simp [AndroidFP.callback, hf, percentsOf, Signal.percent?]
  | error code vendorCode =>
    by_cases hc : code = ERROR_NO_ERROR <;>
      simp [AndroidFP.callback, hc, percentsOf, Signal.percent?]
  | removed finger remaining =>
    simp only [AndroidFP.callback, AndroidFP.removeCallback]
    split <;> exact ⟨rfl, rfl⟩
  | enumerate finger remaining =>
    by_cases hf : finger = 0 <;> by_cases hr : remaining = 0 <;>
      simp [AndroidFP.callback, AndroidFP.enumerateCallback, hf, hr, percentsOf, Signal.percent?]

theorem progress_fraction {first r : UInt32} :
    AndroidFP.progress r (first.toNat + 1) = some (fraction first r) := by
  have hne : (first.toNat : Rat) + 1 ≠ 0 := by positivity
  rw [AndroidFP.progress, if_neg hne, fraction]

/-- A callback of an enrolment that counts down reports the part that is done. -/
theorem enrollCallback_counts {hal : Hal} {finger r : UInt32} {rs : List UInt32}
    {self : AndroidFP} (hself : self.m_enrollRemaining = learned rs)
    (h : CountsDown (rs ++ [r])) :
    (self.enrollCallback hal finger r).self.m_enrollRemaining = learned (rs ++ [r]) ∧
      percentsOf (self.enrollCallback hal finger r).signals =
        [some (percent ((rs ++ [r]).headD 0) r)] := by
  have hle : r ≤ (rs ++ [r]).headD 0 := h.le_first (by simp)
  rw [← toPercent_fraction hle]
  by_cases hr : 0 < r
  · have hne : r ≠ 0 := UInt32.pos_iff_ne_zero.mp hr
    cases rs with
    | nil =>
      -- so the sum does not wrap
      have hsum : (r.toNat + 1) % 4294967296 = r.toNat + 1 := by
        have hfirst := UInt32.lt_iff_toNat_lt.mp (h.first r rfl)
        have hmax : (0xFFFFFFFF : UInt32).toNat = 4294967295 := rfl
        omega
      have hzero : self.m_enrollRemaining = 0 := hself
      simp [AndroidFP.enrollCallback, hr, hne, hzero, learned, hsum, percentsOf, Signal.percent?,
        progress_fraction]
    | cons first rs =>
      have hfirst : first ≠ 0 := by
        rintro rfl
        exact absurd (UInt32.lt_of_lt_of_le hr hle) (UInt32.lt_irrefl 0)
      have hpos : (first.toNat : Rat) + 1 ≠ 0 := by positivity
      simp [AndroidFP.enrollCallback, hr, hself, learned, hfirst, hpos, percentsOf,
        Signal.percent?, progress_fraction]
  · have hz : r = 0 := by simpa using hr
    subst hz
    have hone : ∀ first, fraction first 0 = 1 := fun first => fraction_eq_one.mpr rfl
    refine ⟨?_, ?_⟩
    · cases rs with
      | nil => simpa [AndroidFP.enrollCallback, learned] using hself
      | cons first rs => simpa [AndroidFP.enrollCallback, learned] using hself
    · by_cases hp : hal .postEnroll = SYS_OK <;>
        simp [AndroidFP.enrollCallback, hp, percentsOf, Signal.percent?, hone]

/-! ## Enrolments of the daemon -/

@[simp] theorem percentsTold_nil : percentsTold [] = [] := rfl

@[simp] theorem percentsTold_cons (o : Output) (out : List Output) :
    percentsTold (o :: out) = o.percent?.toList ++ percentsTold out :=
  filterMap_output_cons Output.percent? o out

@[simp] theorem percentsTold_append (a b : List Output) :
    percentsTold (a ++ b) = percentsTold a ++ percentsTold b := List.filterMap_append

@[simp] theorem percentsTold_stateChange (old new : State) :
    percentsTold (stateChange old new) = [] :=
  filterMap_stateChange (fun _ => rfl) old new

@[simp] theorem percentsTold_map_request (rs : List (Request × Int)) :
    percentsTold (rs.map fun p => .request p.1 p.2) = [] :=
  filterMap_map_none (fun _ => rfl) rs

@[simp] theorem percentsTold_map_removed (names : List String) :
    percentsTold (names.map fun f => .signal (.Removed f)) = [] :=
  filterMap_map_none (fun _ => rfl) names

@[simp] theorem percentsTold_requestOutput (hal : Hal) (r : Request) :
    percentsTold (requestOutput hal r) = [] := by
  by_cases h : hal r = SYS_OK <;> simp [requestOutput, Output.percent?, h]

@[simp] theorem percentsOf_append (a b : List Signal) :
    percentsOf (a ++ b) = percentsOf a ++ percentsOf b := List.filterMap_append

theorem percentsOf_cons (signal : Signal) (signals : List Signal) :
    percentsOf (signal :: signals) = signal.percent?.toList ++ percentsOf signals := by
  cases h : signal.percent? <;> simp [percentsOf, h]

/-- The step makes the request of an enrolment. -/
def BeginsEnrolment (e : Edge) : Prop :=
  ∃ caller c, e.input.event = .call caller c ∧ c.enrols = true ∧
    (e.src.fpd.requestOf caller c).isSome = true

/-- The values of the enroll callbacks. -/
def remainings (is : List Input) : List UInt32 :=
  is.filterMap fun i => match i.event with
    | .callback (.enrollresult _ remaining) => some remaining
    | _ => none

theorem FPDCommunity.invoke_percents (env : Env) (caller : String) (c : Call) (x : Exec) :
    percentsTold (invoke env caller c x).1.out = percentsTold x.out ++
      if c.enrols ∧ (x.self.requestOf caller c).isSome then [some 0] else [] := by
  rcases callMove_cases x.self env.hal caller c with
    ⟨h, hm⟩ | ⟨rfl, hb, hs, hm⟩ | ⟨r, h, -, -⟩ | ⟨r, h, -, -⟩
  · simp [invoke_stay hm, h]
  · rw [invoke_abort hb hs]
    simp [abort, Output.percent?, Call.enrols]
  · rw [invoke_request h]
    by_cases he : c.enrols <;> simp [h, he, Output.percent?]
  · rw [invoke_request h]
    by_cases he : c.enrols <;> simp [h, he, Output.percent?]

section Runs

variable [QDataStream]

theorem FPDCommunity.slot_percents (env : Env) (signal : Signal) (x : Exec) :
    percentsTold (slot env signal x).out = percentsTold x.out ++ signal.percent?.toList := by
  cases signal with
  | failed message =>
    by_cases ht : x.self.tolerates message
    · simp [slot, slot_failed_tolerated ht, Output.percent?, Signal.percent?]
    · simp [slot, slot_failed_ends ht, Output.percent?, Signal.percent?]
  | succeeded finger => simp [slot, slot_succeeded, Output.percent?, Signal.percent?]
  | removed finger =>
    by_cases h : finger = 0 <;>
      simp [slot, slot_removed, foldl_removed, h, Output.percent?, Signal.percent?]
  | authenticated finger => simp [slot, slot_authenticated_out, Output.percent?, Signal.percent?]
  | enrollProgress pc =>
    by_cases hv : x.self.m_state = .FPSTATE_VERIFYING <;>
      simp [slot, slot_enrollProgress, hv, abort, Output.percent?, Signal.percent?]
  | acquired info =>
    by_cases h : acquiredState info = x.self.m_acquired <;>
      simp [slot, slot_acquired_out, h, Output.percent?, Signal.percent?]
  | enumerated => simp [slot, slot_enumerated, Output.percent?, Signal.percent?]

/-- The signals a step adds to the queue. -/
def System.posted (s : System) (i : Input) : List Signal :=
  match i.event with
  | .callback cb => (s.fpd.m_androidFP.callback i.env.hal cb).signals
  | _ => []

theorem step_percents {s : System} {i : Input} (h : ¬ BeginsEnrolment (daemon.edge s i)) :
    percentsTold (daemon.step s i).2.out ++ percentsOf (daemon.step s i).1.queue =
      percentsOf s.queue ++ percentsOf (s.posted i) := by
  obtain ⟨event, env⟩ := i
  cases event with
  | call caller c =>
    have hno : ¬ (c.enrols = true ∧ (s.fpd.requestOf caller c).isSome = true) :=
      fun hc => h ⟨caller, c, rfl, hc⟩
    simp [step_call, invoke_percents, hno, System.posted, percentsOf]
  | timeout =>
    by_cases ht : s.fpd.m_cancelTimer <;>
      simp [daemon, System.step, System.posted, ht, slot_cancelIdentify, Output.percent?,
        percentsOf]
  | callback cb =>
    simp [daemon, System.step, System.posted]
  | deliver =>
    obtain ⟨d, queue⟩ := s
    cases queue with
    | nil => rfl
    | cons signal queue =>
      have hslot := slot_percents env signal { self := d }
      simp only [daemon, System.step, System.posted, percentsOf_cons, hslot]
      simp [percentsOf]

/-- What a step that begins no enrolment learns, and what it adds to the queue. -/
theorem step_counts {s : System} {i : Input} (h : ¬ BeginsEnrolment (daemon.edge s i))
    {rs : List UInt32} (hs : s.fpd.m_androidFP.m_enrollRemaining = learned rs)
    (hdown : CountsDown (rs ++ remainings [i])) :
    (daemon.step s i).1.fpd.m_androidFP.m_enrollRemaining = learned (rs ++ remainings [i]) ∧
      percentsOf (s.posted i) =
        (remainings [i]).map fun r => some (percent ((rs ++ remainings [i]).headD 0) r) := by
  rw [step_androidFP]
  obtain ⟨event, env⟩ := i
  cases event with
  | call caller c =>
    have hkeep : (if (s.fpd.requestOf caller c).isSome then (s.fpd.prepared c).m_androidFP
        else s.fpd.m_androidFP).m_enrollRemaining = s.fpd.m_androidFP.m_enrollRemaining := by
      by_cases hr : (s.fpd.requestOf caller c).isSome
      · have hno : c.enrols = false := by
          by_contra he
          exact h ⟨caller, c, rfl, by simpa using he, hr⟩
        cases c <;> simp_all [prepared, Call.enrols]
      · simp [hr]
    rw [hkeep]
    simpa [remainings, System.posted, percentsOf] using hs
  | timeout => simpa [remainings, System.posted, percentsOf] using hs
  | deliver => simpa [remainings, System.posted, percentsOf] using hs
  | callback cb =>
    by_cases hcb : ∃ finger r, cb = .enrollresult finger r
    · obtain ⟨finger, r, rfl⟩ := hcb
      exact enrollCallback_counts hs hdown
    · have hnone : remainings [⟨.callback cb, env⟩] = [] := by cases cb <;> simp_all [remainings]
      obtain ⟨hkeep, hsignals⟩ := callback_counts env.hal s.fpd.m_androidFP
        fun finger r h => hcb ⟨finger, r, h⟩
      rw [hnone, List.append_nil]
      exact ⟨hkeep.trans hs, hsignals⟩

/-- What is shown from a state on, and what is still queued, is what was queued in it and then one
percentage for each enroll callback. -/
theorem run_percents {s : System} (hs : s.fpd.m_androidFP.m_enrollRemaining = 0) {is : List Input}
    (hone : daemon.Along s is fun _ e => ¬ BeginsEnrolment e)
    (hdown : CountsDown (remainings is)) :
    (daemon.final s is).fpd.m_androidFP.m_enrollRemaining = learned (remainings is) ∧
      percentsTold ((daemon.edges s is).flatMap (·.out.out)) ++
          percentsOf (daemon.final s is).queue =
        percentsOf s.queue ++
          (remainings is).map fun r => some (percent ((remainings is).headD 0) r) := by
  induction is using List.reverseRecOn with
  | nil => exact ⟨hs, by simp [remainings]⟩
  | append_singleton is i ih =>
    have happend : remainings (is ++ [i]) = remainings is ++ remainings [i] :=
      List.filterMap_append
    rw [happend] at hdown ⊢
    obtain ⟨hone, hi⟩ := along_snoc.mp hone
    obtain ⟨hlearned, hshown⟩ := ih hone hdown.take
    obtain ⟨hlearned', hposted⟩ := step_counts hi hlearned hdown
    have hstep := step_percents hi
    -- the first value is the same, unless there was none
    have hfirst : (remainings is).map (fun r => some (percent ((remainings is).headD 0) r)) =
        (remainings is).map fun r =>
          some (percent ((remainings is ++ remainings [i]).headD 0) r) := by
      cases remainings is <;> rfl
    refine ⟨by rw [daemon.final_snoc]; exact hlearned', ?_⟩
    rw [daemon.edges_snoc, daemon.final_snoc, List.flatMap_append, percentsTold_append,
      List.append_assoc, List.map_append, ← hfirst, ← hposted, ← List.append_assoc (percentsOf _),
      ← hshown, List.append_assoc]
    congr 1
    simpa using hstep

theorem begins_percents {s : System} {i : Input} (h : BeginsEnrolment (daemon.edge s i)) :
    (daemon.step s i).1.fpd.m_androidFP.m_enrollRemaining = 0 ∧
      (daemon.step s i).1.queue = s.queue ∧ percentsTold (daemon.step s i).2.out = [some 0] := by
  obtain ⟨event, env⟩ := i
  obtain ⟨caller, c, rfl, he, hr⟩ :
      ∃ caller c, event = .call caller c ∧ c.enrols = true ∧
        (s.fpd.requestOf caller c).isSome = true := h
  refine ⟨?_, rfl, ?_⟩
  · rw [step_androidFP]
    cases c with
    | Enroll finger => simp [hr, prepared]
    | Verify => simp [hr, prepared]
    | _ => cases he
  · simp [step_call, invoke_percents, he, hr]

/-- **Enrolment progress is sane.** The step `i` begins an enrolment, none of `is` begins another;
the HAL counts down. What is shown from `i` on, and what is still queued, is `0`, what was queued
before, and one percentage for each callback: they rise from `0`, stay within `100`, and are `100`
where nothing remains. -/
theorem progress_sane {s : System} {i : Input} (hbegins : BeginsEnrolment (daemon.edge s i))
    {is : List Input} (hone : daemon.Along (daemon.step s i).1 is fun _ e => ¬ BeginsEnrolment e)
    (hdown : CountsDown (remainings is)) :
    ∃ values : List Int,
      percentsTold ((daemon.edges s (i :: is)).flatMap (·.out.out)) ++
          percentsOf (daemon.final s (i :: is)).queue =
        some 0 :: (percentsOf s.queue ++ values.map some) ∧
      (0 :: values).Pairwise (· ≤ ·) ∧ (∀ v ∈ values, 0 ≤ v ∧ v ≤ 100) ∧
      List.Forall₂ (fun r v => v = 100 ↔ r = 0) (remainings is) values := by
  obtain ⟨hzero, hqueue, htold⟩ := begins_percents hbegins
  obtain ⟨-, hshown⟩ := run_percents hzero hone hdown
  have hle : ∀ r ∈ remainings is, r ≤ (remainings is).headD 0 := fun r hr => hdown.le_first hr
  refine ⟨(remainings is).map (percent ((remainings is).headD 0)), ?_, ?_, ?_, ?_⟩
  · rw [daemon.edges_cons, List.flatMap_cons, percentsTold_append, daemon.edge_out, htold,
      daemon.final_cons, List.append_assoc, hshown, hqueue, List.map_map]
    rfl
  · rw [List.pairwise_cons, List.pairwise_map]
    refine ⟨?_, hdown.sorted.imp fun h => percent_anti h⟩
    intro v hv
    obtain ⟨r, hr, rfl⟩ := List.mem_map.mp hv
    exact (percent_bounds (hle r hr)).1
  · intro v hv
    obtain ⟨r, hr, rfl⟩ := List.mem_map.mp hv
    exact percent_bounds (hle r hr)
  · rw [List.forall₂_map_right_iff, List.forall₂_same]
    exact fun r hr => percent_eq_hundred (hle r hr)

end Runs

/-- Three samples of `:1.5`'s enrolment. -/
theorem progress_sane_enroll :
    letI := qt56
    let s := boot (.answering SYS_EBUSY) (fun _ => "") none
    let enroll : Input := ⟨.call ":1.5" (.Enroll "left"), .answering SYS_OK⟩
    let is : List Input :=
      [⟨.callback (.enrollresult 7 2), .answering SYS_OK⟩, ⟨.deliver, .answering SYS_OK⟩,
        ⟨.callback (.enrollresult 7 1), .answering SYS_OK⟩, ⟨.deliver, .answering SYS_OK⟩,
        ⟨.callback (.enrollresult 7 0), .answering SYS_OK⟩, ⟨.deliver, .answering SYS_OK⟩]
    percentsTold ((daemon.edges s (enroll :: is)).flatMap (·.out.out)) =
        [some 0, some 33, some 66, some 100] ∧
      ∃ values : List Int,
        percentsTold ((daemon.edges s (enroll :: is)).flatMap (·.out.out)) ++
            percentsOf (daemon.final s (enroll :: is)).queue = some 0 :: values.map some ∧
          (0 :: values).Pairwise (· ≤ ·) ∧ (∀ v ∈ values, 0 ≤ v ∧ v ≤ 100) ∧
          List.Forall₂ (fun r v => v = 100 ↔ r = 0) (remainings is) values := by
  let := qt56
  intro s enroll is
  refine ⟨by decide +kernel, ?_⟩
  refine progress_sane (i := enroll) ⟨":1.5", .Enroll "left", rfl, rfl, by decide⟩ ?_ ?_
  · refine (Reactive.Machine.along_of_forall_mem (p := fun i => ∀ caller c,
      i.event ≠ .call caller c) (by simp [is])).mono fun _ e he => ?_
    rintro ⟨caller, c, hc, -⟩
    exact he caller c hc
  · refine ⟨by decide, fun first hfirst => ?_⟩
    obtain rfl : 2 = first := Option.some.inj hfirst
    decide

end SailfishFpd

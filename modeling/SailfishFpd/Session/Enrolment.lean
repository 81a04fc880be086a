import SailfishFpd.Session.Timely
import SailfishFpd.Store.Edits
import SailfishFpd.QtStream

/-!
# Enrolment

`slot_succeeded` adds the finger under `m_addingFinger` in whatever state it
runs. That name belongs to the enrolment in progress only in `FPSTATE_ENROLLING`:
a success that comes in any other state is added under the name of an abandoned
`Enroll`, or under an empty one. It does not come as long as the HAL completes an
enrolment for an `Enroll` only, and nothing overtakes a success in the queue.
-/

namespace SailfishFpd

open Reactive (Machine)
open Reactive.Machine (along_cons along_nil)

/-- The step adds one finger, under the name the running `Enroll` was called with. -/
structure AddedByEnroll (past : List Edge) (e : Edge) (name : String) : Prop where
  state : e.src.fpd.m_state = .FPSTATE_ENROLLING
  call : lastAccepted past = some (e.src.fpd.m_dbusCaller, .Enroll name)
  entry : ∃ finger, e.dst.fpd.m_fingerMap = e.src.fpd.m_fingerMap.insert finger name

def Signal.IsSuccess (signal : Signal) : Prop := ∃ finger, signal = .succeeded finger

instance : DecidablePred Signal.IsSuccess
  | .succeeded finger => isTrue ⟨finger, rfl⟩
  | .failed _ | .authenticated _ | .removed _ | .enrollProgress _ | .acquired _ | .enumerated =>
    isFalse (by rintro ⟨_, h⟩; cases h)

/-- If a success is about to be handled, an `Enroll` runs. -/
def SuccessInTime : List Edge → Edge → Prop :=
  InTime Signal.IsSuccess fun _ s => s.fpd.m_state = .FPSTATE_ENROLLING

/-- A success is posted while an `Enroll` runs and no signal that ends it is queued, and while a
success is queued neither an `Abort` nor the timer ends the `Enroll`. -/
abbrev SuccessTimely : List Edge → Edge → Prop :=
  Timely Signal.IsSuccess .FPSTATE_ENROLLING fun _ s => s.fpd.m_state = .FPSTATE_ENROLLING

theorem Control.tracks_enrolling {c : Control} {last : Option (String × Call)} (h : c.Tracks last)
    (hs : c.state = .FPSTATE_ENROLLING) : last = some (c.owner, .Enroll c.adding) := by
  obtain ⟨call, hlast, hbusy, hname⟩ := h (by simp [hs]) (by simp [hs])
  cases call with
  | Enroll finger => rw [hlast, hname finger rfl]
  | _ => simp [hs, Call.busyState] at hbusy

/-! ## The list while an operation runs -/

theorem step_idle_of_edit [QDataStream] {s : System} {i : Input} (h : s.edit i ≠ .keep) :
    (daemon.step s i).1.fpd.m_state = .FPSTATE_IDLE := by
  have hc := (step_makes s i).1
  have hmove : ∃ e, s.move i = .finish e := by
    rcases s.edit_cases i with he | ⟨hd, f, queue, hq⟩ | ⟨hd, f, queue, hq⟩ | ⟨hd, queue, hq⟩
    · exact absurd he h
    · exact ⟨.succeeded, by simp [System.move, hd, hq, FPDCommunity.signalMove]⟩
    · exact ⟨.removed, by simp [System.move, hd, hq, FPDCommunity.signalMove]⟩
    · exact ⟨.enumerated, by simp [System.move, hd, hq, FPDCommunity.signalMove]⟩
  obtain ⟨e, hm⟩ := hmove
  rw [hm] at hc
  exact congrArg Control.state hc

/-- The name that is being enrolled is not on the list. -/
def FPDCommunity.AddingUnlisted (d : FPDCommunity) : Prop :=
  d.m_state = .FPSTATE_ENROLLING → d.m_addingFinger ∉ FingerMap.values d.m_fingerMap

theorem addingUnlisted_step [QDataStream] {s : System} (h : s.fpd.AddingUnlisted) (i : Input) :
    (daemon.step s i).1.fpd.AddingUnlisted := by
  intro hs
  have hbusy : (daemon.step s i).1.fpd.m_state ≠ .FPSTATE_IDLE := by simp [hs]
  have hkeep : s.edit i = .keep := by
    by_contra he
    exact hbusy (step_idle_of_edit he)
  have hmap := (step_edits s i).1
  rw [hkeep] at hmap
  rw [hmap]
  have hc := (step_makes s i).1
  cases hm : s.move i with
  | stay =>
    rw [hm] at hc
    have hstate := congrArg Control.state hc
    have hadding := congrArg Control.adding hc
    simp only [FPDCommunity.control_adding, FPDCommunity.control_state] at hadding hstate
    rw [hadding]
    exact h (hstate.symm.trans hs)
  | start caller call =>
    have hcall : i.event = .call caller call := System.move_started (by rw [hm]; rfl)
    have hcalled : s.fpd.callMove i.env.hal caller call = .start caller call := by
      rw [← hm, System.move, hcall]
    rw [hm] at hc
    have hstate : (daemon.step s i).1.fpd.m_state = call.busyState := congrArg Control.state hc
    have hadding : (daemon.step s i).1.fpd.m_addingFinger = (s.fpd.control.prepare call).adding :=
      congrArg Control.adding hc
    rw [hs] at hstate
    cases call with
    | Enroll finger =>
      -- `Enroll` has looked for the name
      rw [hadding]
      rcases FPDCommunity.callMove_cases s.fpd i.env.hal caller (.Enroll finger) with
        ⟨-, hm⟩ | ⟨-, -, -, hm⟩ | ⟨r, hr, -, -⟩ | ⟨r, -, -, hm⟩
      · rw [hcalled] at hm; cases hm
      · rw [hcalled] at hm; cases hm
      · exact (FPDCommunity.requests_of_some hr).1
      · rw [hcalled] at hm; cases hm
    | _ => cases hstate
  | bounce caller call | finish e =>
    rw [hm] at hc
    exact absurd (congrArg Control.state hc) hbusy

theorem visits_addingUnlisted [QDataStream] (env : Env) (getprop : String → String)
    (database : Option (List UInt8)) (is : List Input) :
    daemon.Visits (boot env getprop database) is fun _ s => s.fpd.AddingUnlisted := by
  refine daemon.visits_invariant (fun _ i h => addingUnlisted_step h i) ?_ is
  intro hs
  rw [boot_fpd] at hs
  by_cases hr : env.hal .enumerate = SYS_OK <;> simp [hr] at hs

section Runs

variable [QDataStream] (env : Env) (getprop : String → String) (database : Option (List UInt8))

theorem mem_added_iff {s : System} {i : Input} {name : String} :
    .signal (.Added name) ∈ (daemon.step s i).2.out ↔
      i.event = .deliver ∧ (∃ finger queue, s.queue = .succeeded finger :: queue) ∧
        s.fpd.m_addingFinger = name := by
  rw [← mem_changes_added, (step_edits s i).2.2, Edit.mem_changes_added]
  simp only [System.edit_eq_add]
  refine ⟨?_, ?_⟩
  · rintro ⟨finger, hd, ⟨queue, hq⟩, hn⟩
    exact ⟨hd, ⟨finger, queue, hq⟩, hn⟩
  · rintro ⟨hd, ⟨finger, queue, hq⟩, hn⟩
    exact ⟨finger, hd, ⟨queue, hq⟩, hn⟩

/-- In a run, every finger that is added is one of the `Enroll` in progress. -/
def AddsByEnroll (s : System) (is : List Input) : Prop :=
  daemon.Along s is fun past e => ∀ name, .signal (.Added name) ∈ e.out.out →
    AddedByEnroll past e name

theorem addsByEnroll_iff (is : List Input) :
    AddsByEnroll (boot env getprop database) is ↔
      daemon.Along (boot env getprop database) is SuccessInTime := by
  refine ⟨?_, ?_⟩
  · rintro h js i ks e hdeliver _ queue hq ⟨finger, rfl⟩
    have hadded := mem_added_iff.mpr ⟨hdeliver, ⟨finger, queue, hq⟩, rfl⟩
    exact (h js i ks e _ hadded).state
  · intro h js i ks e name hadded
    obtain ⟨hdeliver, ⟨finger, queue, hq⟩, hname⟩ := mem_added_iff.mp hadded
    have hstate := h js i ks e hdeliver _ queue hq ⟨finger, rfl⟩
    have htracks := visits_tracks env getprop database is js (i :: ks) e
    have hlast := Control.tracks_enrolling htracks hstate
    have hedit := System.edit_eq_add.mpr ⟨hdeliver, ⟨queue, hq⟩, hname⟩
    have hmap := (step_edits (daemon.final (boot env getprop database) js) i).1
    rw [hedit] at hmap
    subst hname
    exact ⟨hstate, hlast, finger, hmap⟩

/-- **Fingers are added by the `Enroll` in progress as long as nothing overtakes a success.** A run
in which a success is overtaken has a prefix after which handling what is queued adds a finger for
no `Enroll`. -/
theorem added_by_enroll (is : List Input) :
    (daemon.Along (boot env getprop database) is SuccessTimely →
        AddsByEnroll (boot env getprop database) is) ∧
      (¬ daemon.Along (boot env getprop database) is SuccessTimely →
        ∀ env', ∃ js ks n, is = js ++ ks ∧
          ¬ AddsByEnroll (boot env getprop database)
            (js ++ List.replicate n ⟨.deliver, env'⟩)) := by
  have hlasts : Lasts .FPSTATE_ENROLLING fun _ s => s.fpd.m_state = .FPSTATE_ENROLLING :=
    lasts_state (by simp)
  refine ⟨fun h => ?_, fun h env' => ?_⟩
  · exact (addsByEnroll_iff env getprop database is).mpr (inTime_of_timely hlasts (by simp) rfl h)
  · obtain ⟨js, ks, n, hjs, hlate⟩ := exists_not_inTime_of_not_timely hlasts (by simp) rfl env' h
    exact ⟨js, ks, n, hjs, fun hadds => hlate ((addsByEnroll_iff env getprop database _).mp hadds)⟩

end Runs

/-- `:1.5` enrols a finger, in two samples. -/
theorem added_by_enroll_left :
    letI := qt56
    let is : List Input := [⟨.callback (.enumerate 0 0), .answering SYS_OK⟩,
      ⟨.deliver, .answering SYS_OK⟩, ⟨.call ":1.5" (.Enroll "left"), .answering SYS_OK⟩,
      ⟨.callback (.enrollresult 7 1), .answering SYS_OK⟩,
      ⟨.callback (.enrollresult 7 0), .answering SYS_OK⟩, ⟨.deliver, .answering SYS_OK⟩,
      ⟨.deliver, .answering SYS_OK⟩, ⟨.deliver, .answering SYS_OK⟩]
    let s := boot (.answering SYS_OK) (fun _ => "") none
    AddsByEnroll s is ∧ (daemon.final s is).fpd.m_fingerMap.toList = [(7, "left")] := by
  let := qt56
  intro is s
  have htimely : daemon.Along s is SuccessTimely :=
    along_cons (by decide) (along_cons (by decide) (along_cons (by decide) (along_cons (by decide)
      (along_cons (by decide) (along_cons (by decide) (along_cons (by decide)
        (along_cons (by decide) along_nil)))))))
  exact ⟨(added_by_enroll _ _ _ is).1 htimely, by decide⟩

/-- `:1.9` verifies, and the HAL ends the enrolment `Verify` rests on with its first callback:
the progress ends the `Verify`, and the success adds a finger without a name. -/
theorem verify_adds_finger :
    letI := qt56
    let s := daemon.final (boot (.answering SYS_OK) (fun _ => "") none)
      [⟨.callback (.enumerate 0 0), .answering SYS_OK⟩, ⟨.deliver, .answering SYS_OK⟩,
        ⟨.call ":1.9" .Verify, .answering SYS_OK⟩,
        ⟨.callback (.enrollresult 3 0), .answering SYS_OK⟩, ⟨.deliver, .answering SYS_OK⟩]
    s.fpd.m_state = .FPSTATE_IDLE ∧
      .signal (.Added "") ∈ (daemon.step s ⟨.deliver, .answering SYS_OK⟩).2.out ∧
      (daemon.step s ⟨.deliver, .answering SYS_OK⟩).1.fpd.GetAll = [""] := by
  decide

end SailfishFpd

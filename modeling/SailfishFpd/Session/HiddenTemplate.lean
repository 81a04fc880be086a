import SailfishFpd.Delivery
import SailfishFpd.Session.Enrolment

/-!
# Hidden templates

The HAL stores the template before it reports the last sample. `enrollCallback`
then makes one more request, `postEnroll`; when it is refused the enrolment is
reported as failed, the template stays in the HAL, and no list has it.
-/

namespace SailfishFpd

open FPDCommunity
open Reactive.Machine (visits_cons visits_nil)

/-- The signals whose slots end an enrolment. -/
def Signal.endsEnrolment : Signal → Bool
  | .enrollProgress _ | .acquired _ => false
  | _ => true

/-- The template is listed under the name it was enrolled with, or its removal was requested. -/
def Accounted (finger : UInt32) (name : String) (out : List Output) (d : FPDCommunity) : Prop :=
  d.m_fingerMap[finger]? = some name ∧ .signal (.Added name) ∈ out ∨
    .signal .Failed ∈ out ∧ ∃ gid status, (.remove gid finger, status) ∈ requestsOf out

/-- The report `(finger, 0)` in state `s` leads to a success of `finger`: of the signals that end
the enrolment, no other comes first. -/
def SuccessEnds (finger : UInt32) (s : System) (env : Env) : Prop :=
  match s.queue.find? Signal.endsEnrolment with
  | none => env.hal .postEnroll = SYS_OK
  | some signal => signal = .succeeded finger

/-- The enrolment of a daemon in state `s` goes on during `run`, and ends with the delivery
`last`. -/
structure EndsEnrolment [QDataStream] (s : System) (run : List Input) (last : Input) : Prop where
  busy : daemon.Visits s run fun _ t => t.fpd.m_state = .FPSTATE_ENROLLING
  deliver : last.event = .deliver
  idle : (daemon.final s (run ++ [last])).fpd.m_state = .FPSTATE_IDLE

theorem FPDCommunity.signalMove_enrolling {d : FPDCommunity}
    (hs : d.m_state = .FPSTATE_ENROLLING) (signal : Signal) :
    d.signalMove signal = .stay ↔ signal.endsEnrolment = false := by
  cases signal with
  | failed message => simp [signalMove, tolerates, hs, Signal.endsEnrolment]
  | _ => simp [signalMove, hs, Signal.endsEnrolment]

section Runs

variable [QDataStream]

/-- An enrolment goes on: the map is `m`, and `name` is to be added. -/
structure Enrolling (m : FingerMap) (name : String) (s : System) : Prop where
  state : s.fpd.m_state = .FPSTATE_ENROLLING
  map : s.fpd.m_fingerMap = m
  adding : s.fpd.m_addingFinger = name

variable {m : FingerMap} {name : String} {s : System} {i : Input}

omit [QDataStream] in
theorem Enrolling.busy (h : Enrolling m name s) : s.fpd.m_state ≠ .FPSTATE_IDLE := by
  simp [h.state]

theorem enrolling_step (h : Enrolling m name s)
    (hs : (daemon.step s i).1.fpd.m_state = .FPSTATE_ENROLLING) :
    Enrolling m name (daemon.step s i).1 ∧
      ∀ n, .signal (.Added n) ∉ (daemon.step s i).2.out := by
  have hbusy : (daemon.step s i).1.fpd.m_state ≠ .FPSTATE_IDLE := by simp [hs]
  have hkeep : s.edit i = .keep := by
    by_contra he
    exact hbusy (step_idle_of_edit he)
  obtain ⟨hmap, -, hchanges⟩ := step_edits s i
  have hc := (step_makes s i).1
  rw [System.move_eq_stay h.busy hbusy] at hc
  refine ⟨⟨hs, ?_, ?_⟩, fun n hn => ?_⟩
  · rw [hmap, hkeep]
    exact h.map
  · exact (congrArg Control.adding hc).trans h.adding
  · rw [hkeep] at hchanges
    rw [← mem_changes_added, hchanges] at hn
    cases hn

theorem ending_step (h : Enrolling m name s)
    (hs : (daemon.step s i).1.fpd.m_state = .FPSTATE_ENROLLING) {signal : Signal}
    (hq : s.queue.find? Signal.endsEnrolment = some signal) :
    (daemon.step s i).1.queue.find? Signal.endsEnrolment = some signal := by
  have hbusy : (daemon.step s i).1.fpd.m_state ≠ .FPSTATE_IDLE := by simp [hs]
  have hm := System.move_eq_stay h.busy hbusy
  obtain ⟨event, env⟩ := i
  cases event with
  | call caller c => exact hq
  | timeout =>
    by_cases ht : s.fpd.m_cancelTimer
    · simp [System.move, ht] at hm
    · simpa [daemon, System.step, ht] using hq
  | callback cb =>
    show (s.queue ++ _).find? _ = _
    rw [List.find?_append, hq]
    rfl
  | deliver =>
    obtain ⟨d, queue⟩ := s
    cases queue with
    | nil => exact hq
    | cons first queue =>
      have hno : first.endsEnrolment = false := (signalMove_enrolling h.state first).mp hm
      rwa [List.find?_cons_of_neg (by simp [hno])] at hq

theorem ending_delivered (h : Enrolling m name s) (hd : i.event = .deliver)
    (hs : (daemon.step s i).1.fpd.m_state = .FPSTATE_IDLE) {signal : Signal}
    (hq : s.queue.find? Signal.endsEnrolment = some signal) :
    ∃ queue, s.queue = signal :: queue := by
  have hc := (step_makes s i).1
  obtain ⟨d, queue⟩ := s
  cases queue with
  | nil => cases hq
  | cons first queue =>
    have hends : first.endsEnrolment = true := by
      by_contra hno
      have hm : (⟨d, first :: queue⟩ : System).move i = .stay := by
        simpa [System.move, hd] using
          (signalMove_enrolling h.state first).mpr (Bool.eq_false_iff.mpr hno)
      rw [hm] at hc
      have hstate := congrArg Control.state hc
      exact h.busy (hstate.symm.trans hs)
    rw [List.find?_cons_of_pos hends] at hq
    exact ⟨queue, by rw [Option.some.inj hq]⟩

/-- The report of the last sample posts a signal that ends the enrolment. -/
theorem ending_report (s : System) (finger : UInt32) (env : Env) :
    ∃ signal, (daemon.step s ⟨.callback (.enrollresult finger 0), env⟩).1.queue.find?
        Signal.endsEnrolment = some signal ∧
      (signal = .succeeded finger ↔ SuccessEnds finger s env) := by
  have hqueue : (daemon.step s ⟨.callback (.enrollresult finger 0), env⟩).1.queue =
      s.queue ++ [.enrollProgress (some 1),
        if env.hal .postEnroll = SYS_OK then .succeeded finger
        else .failed (IntToStringRequestStatus (env.hal .postEnroll))] := rfl
  rw [hqueue, List.find?_append]
  unfold SuccessEnds
  cases hq : s.queue.find? Signal.endsEnrolment with
  | some signal => exact ⟨signal, rfl, .rfl⟩
  | none =>
    by_cases hp : env.hal .postEnroll = SYS_OK
    · exact ⟨.succeeded finger, by simp [hp, Signal.endsEnrolment], by simp [hp]⟩
    · refine ⟨.failed (IntToStringRequestStatus (env.hal .postEnroll)), ?_, by simp [hp]⟩
      simp [hp, Signal.endsEnrolment]

theorem enrolling_run (h : Enrolling m name s) {is : List Input}
    (hbusy : daemon.Visits s is fun _ t => t.fpd.m_state = .FPSTATE_ENROLLING) :
    Enrolling m name (daemon.final s is) ∧
      ∀ e ∈ daemon.edges s is, (∀ n, .signal (.Added n) ∉ e.out.out) ∧
        ∀ p ∈ requestsOf e.out.out, p.1.startsOperation = false := by
  refine hbusy.along.invariant (I := fun past t => Enrolling m name t ∧
    ∀ e ∈ past, (∀ n, .signal (.Added n) ∉ e.out.out) ∧
      ∀ p ∈ requestsOf e.out.out, p.1.startsOperation = false) ⟨h, by simp⟩ ?_
  rintro past t i ⟨h, hpast⟩ ⟨-, hs⟩
  obtain ⟨h', hadded⟩ := enrolling_step h hs
  refine ⟨h', fun e he => ?_⟩
  rcases List.mem_append.mp he with he | he
  · exact hpast e he
  · rw [List.mem_singleton.mp he]
    exact ⟨hadded, step_starts_nothing h.busy i⟩

theorem no_removal (h : Enrolling m name s) {run : List Input} {last : Input}
    (hends : EndsEnrolment s run last) (gid finger : UInt32) (status : Int) :
    (.remove gid finger, status) ∉
      requestsOf ((daemon.edges s (run ++ [last])).flatMap (·.out.out)) := by
  obtain ⟨ht, hquiet⟩ := enrolling_run h hends.busy
  have hnone : ∀ e ∈ daemon.edges s (run ++ [last]),
      ∀ p ∈ requestsOf e.out.out, p.1.startsOperation = false := by
    intro e he
    rw [daemon.edges_snoc] at he
    rcases List.mem_append.mp he with he | he
    · exact (hquiet e he).2
    · rw [List.mem_singleton.mp he]
      exact step_starts_nothing ht.busy last
  intro hm
  obtain ⟨o, ho, hr⟩ := List.mem_filterMap.mp hm
  obtain ⟨e, he, ho⟩ := List.mem_flatMap.mp ho
  have hstarts := hnone e he _ (List.mem_filterMap.mpr ⟨o, ho, hr⟩)
  simp [Request.startsOperation] at hstarts

theorem accounted_iff (h : Enrolling m name s) (hname : name ∉ FingerMap.values m)
    {run : List Input} {last : Input} (hends : EndsEnrolment s run last) {signal : Signal}
    (hq : ∃ queue, (daemon.final s run).queue = signal :: queue) (finger : UInt32) :
    Accounted finger name ((daemon.edges s (run ++ [last])).flatMap (·.out.out))
        (daemon.final s (run ++ [last])).fpd ↔
      signal = .succeeded finger := by
  obtain ⟨ht, hquiet⟩ := enrolling_run h hends.busy
  have hmap : ∀ f, signal = .succeeded f →
      (daemon.final s (run ++ [last])).fpd.m_fingerMap = m.insert f name := by
    rintro f rfl
    obtain ⟨queue, hq⟩ := hq
    rw [daemon.final_snoc, (step_edits _ _).1, System.edit_deliver hends.deliver hq, signalEdit,
      Edit.apply, ht.map, ht.adding]
  refine ⟨?_, ?_⟩
  · rintro (⟨hlisted, hadded⟩ | ⟨-, gid, status, hremove⟩)
    · obtain ⟨e, he, hadded⟩ := List.mem_flatMap.mp hadded
      rw [daemon.edges_snoc] at he
      rcases List.mem_append.mp he with he | he
      · exact absurd hadded ((hquiet e he).1 name)
      · rw [List.mem_singleton.mp he] at hadded
        obtain ⟨-, ⟨f, queue, hq'⟩, -⟩ := mem_added_iff.mp hadded
        obtain ⟨queue', hq⟩ := hq
        obtain rfl : signal = .succeeded f := by
          rw [hq] at hq'
          exact (List.cons.inj hq').1
        rw [hmap f rfl, Std.ExtTreeMap.getElem?_insert] at hlisted
        by_cases hf : f = finger
        · rw [hf]
        · rw [if_neg (by simpa using hf)] at hlisted
          exact absurd (FingerMap.mem_values.mpr ⟨finger, hlisted⟩) hname
    · exact absurd hremove (no_removal h hends gid finger status)
  · rintro rfl
    refine .inl ⟨?_, ?_⟩
    · rw [hmap finger rfl]
      simp
    · obtain ⟨queue, hq⟩ := hq
      refine List.mem_flatMap.mpr ⟨daemon.edge (daemon.final s run) last, ?_, ?_⟩
      · rw [daemon.edges_snoc]
        simp
      · exact mem_added_iff.mpr ⟨hends.deliver, ⟨finger, queue, hq⟩, ht.adding⟩

/-- **No template is hidden, exactly when the enrolment ends with its success.** From any reachable
state in which an `Enroll` of `name` runs: the HAL reports the last sample of `finger`, whatever
comes before and after, and a queued signal ends the enrolment. Then `finger` is listed as `name`,
or its removal was requested, if and only if `postEnroll` was accepted, and no signal of before ends
the enrolment first. -/
theorem no_hidden_template (env : Env) (getprop : String → String)
    (database : Option (List UInt8)) (js : List Input) {caller : String}
    (hs : (daemon.final (boot env getprop database) js).fpd.m_state = .FPSTATE_ENROLLING)
    (hname : lastAccepted (daemon.edges (boot env getprop database) js) =
      some (caller, .Enroll name))
    (is ds : List Input) (finger : UInt32) (env' : Env) (last : Input)
    (hends : EndsEnrolment (daemon.final (boot env getprop database) js)
      (is ++ ⟨.callback (.enrollresult finger 0), env'⟩ :: ds) last) :
    let s := daemon.final (boot env getprop database) js
    let run := is ++ ⟨.callback (.enrollresult finger 0), env'⟩ :: ds ++ [last]
    Accounted finger name ((daemon.edges s run).flatMap (·.out.out)) (daemon.final s run).fpd ↔
      SuccessEnds finger (daemon.final s is) env' := by
  intro s run
  have htracks := (visits_tracks env getprop database js).final
  have hlast := Control.tracks_enrolling htracks hs
  rw [hname] at hlast
  obtain ⟨-, rfl⟩ : caller = s.fpd.m_dbusCaller ∧ name = s.fpd.m_addingFinger := by
    simpa using hlast
  have hunlisted := (visits_addingUnlisted env getprop database js).final hs
  have h : Enrolling s.fpd.m_fingerMap s.fpd.m_addingFinger s := ⟨hs, rfl, rfl⟩
  -- the first ending signal that is queued after the report is delivered by `last`
  obtain ⟨signal, hsignal, hsuccess⟩ := ending_report (daemon.final s is) finger env'
  have hbusy := hends.busy
  rw [List.append_cons] at hbusy
  obtain ⟨ht, -⟩ := enrolling_run h hbusy.take
  have hrun := hbusy.drop
  rw [daemon.final_snoc] at ht hrun
  obtain ⟨hfinal, hfirst⟩ := hrun.along.invariant (I := fun _ t =>
    Enrolling s.fpd.m_fingerMap s.fpd.m_addingFinger t ∧
      t.queue.find? Signal.endsEnrolment = some signal) ⟨ht, hsignal⟩
    fun _ t i h hi => ⟨(enrolling_step h.1 hi.2).1, ending_step h.1 hi.2 h.2⟩
  have hq : ∃ queue, (daemon.final s
      (is ++ ⟨.callback (.enrollresult finger 0), env'⟩ :: ds)).queue = signal :: queue := by
    have hidle := hends.idle
    rw [daemon.final_snoc] at hidle
    rw [List.append_cons, daemon.final_append, daemon.final_snoc] at hidle ⊢
    exact ending_delivered hfinal hends.deliver hidle hfirst
  exact (accounted_iff h hunlisted hends hq finger).trans hsuccess

end Runs

/-- `:1.5`'s enrolment is accepted to the end, and the finger is listed. -/
theorem no_hidden_template_enroll :
    letI := qt56
    let s := daemon.final (boot (.answering SYS_OK) (fun _ => "") none)
      [⟨.callback (.enumerate 0 0), .answering SYS_OK⟩, ⟨.deliver, .answering SYS_OK⟩,
        ⟨.call ":1.5" (.Enroll "left"), .answering SYS_OK⟩]
    let run : List Input := [⟨.callback (.enrollresult 7 0), .answering SYS_OK⟩,
      ⟨.deliver, .answering SYS_OK⟩, ⟨.deliver, .answering SYS_OK⟩]
    Accounted 7 "left" ((daemon.edges s run).flatMap (·.out.out)) (daemon.final s run).fpd := by
  let := qt56
  intro s run
  have hbusy : daemon.Visits s [⟨.callback (.enrollresult 7 0), .answering SYS_OK⟩,
      ⟨.deliver, .answering SYS_OK⟩] fun _ t => t.fpd.m_state = .FPSTATE_ENROLLING :=
    visits_cons (by decide) (visits_cons (by decide) (visits_nil (by decide)))
  have hname : lastAccepted (daemon.edges (boot (.answering SYS_OK) (fun _ => "") none)
      [⟨.callback (.enumerate 0 0), .answering SYS_OK⟩, ⟨.deliver, .answering SYS_OK⟩,
        ⟨.call ":1.5" (.Enroll "left"), .answering SYS_OK⟩]) =
      some (":1.5", .Enroll "left") := by decide
  refine (no_hidden_template _ _ _ _ (by decide) hname [] [⟨.deliver, .answering SYS_OK⟩] 7
    (.answering SYS_OK) ⟨.deliver, .answering SYS_OK⟩ ⟨hbusy, rfl, by decide⟩).mpr ?_
  show SuccessEnds 7 s _
  exact rfl

/-- `postEnroll` is refused: the enrolment has failed, and the stored template is on no list and is
not removed. -/
theorem refused_postEnroll_hides_template :
    letI := qt56
    let s := daemon.final (boot (.answering SYS_OK) (fun _ => "") none)
      [⟨.callback (.enumerate 0 0), .answering SYS_OK⟩, ⟨.deliver, .answering SYS_OK⟩,
        ⟨.call ":1.5" (.Enroll "left"), .answering SYS_OK⟩]
    let run : List Input := [⟨.callback (.enrollresult 7 0), .answering SYS_EIO⟩,
      ⟨.deliver, .answering SYS_OK⟩, ⟨.deliver, .answering SYS_OK⟩]
    let out := (daemon.edges s run).flatMap (·.out.out)
    s.fpd.m_state = .FPSTATE_ENROLLING ∧ (daemon.final s run).fpd.m_state = .FPSTATE_IDLE ∧
      .signal .Failed ∈ out ∧ requestsOf out = [(.postEnroll, SYS_EIO)] ∧
      (daemon.final s run).fpd.GetAll = [] ∧
      ¬ Accounted 7 "left" out (daemon.final s run).fpd := by
  let := qt56
  intro s run out
  have hrequests : requestsOf out = [(.postEnroll, SYS_EIO)] := by decide
  refine ⟨by decide, by decide, by decide, hrequests, by decide, ?_⟩
  rintro (⟨hlisted, -⟩ | ⟨-, gid, status, hremove⟩)
  · exact absurd hlisted (by decide)
  · rw [hrequests] at hremove
    simp at hremove

end SailfishFpd

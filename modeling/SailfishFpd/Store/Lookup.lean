import SailfishFpd.Session.History
import SailfishFpd.Delivery
import SailfishFpd.Store.Persistence

/-!
# Looking up a name

`Remove` looks for the first key with the name, and takes `0` for not found. The
lookup is right as long as `0` is no key of the map. An enumeration never brings
that id into the map, because `enumerateCallback` leaves it out; an enrolment
that ends with it does.
-/

namespace SailfishFpd

open FPDCommunity
open Reactive.Machine (visits_iff_along_of_invariant along_of_forall_mem)

namespace FPDCommunity

variable {d : FPDCommunity} {name : String}

theorem keyOf_unlisted (h : name ∉ d.GetAll) : d.keyOf name = 0 := by
  unfold keyOf
  split
  · next e he =>
    have hname : e.2 = name := by simpa using List.find?_some he
    have hm : e.2 ∈ d.m_fingerMap.toList.map (·.2) :=
      List.mem_map_of_mem (List.mem_of_find?_eq_some he)
    exact absurd (hname ▸ hm) h
  · rfl

theorem getElem?_keyOf (h : name ∈ d.GetAll) : d.m_fingerMap[d.keyOf name]? = some name := by
  unfold keyOf
  split
  · next e he =>
    have hname : e.2 = name := by simpa using List.find?_some he
    rw [← hname]
    exact Std.ExtTreeMap.mem_toList_iff_getElem?_eq_some.mp (List.mem_of_find?_eq_some he)
  · next hnone =>
    obtain ⟨e, he, hname⟩ := List.mem_map.mp h
    exact absurd hname (by simpa using List.find?_eq_none.mp hnone e he)

/-- `0` stands for not found when it is no key. -/
theorem keyOf_eq_zero_iff (h0 : 0 ∉ d.m_fingerMap) : d.keyOf name = 0 ↔ name ∉ d.GetAll := by
  refine ⟨fun hk hname => h0 ?_, keyOf_unlisted⟩
  have hkey := getElem?_keyOf hname
  rw [hk] at hkey
  exact Std.ExtTreeMap.mem_iff_isSome_getElem?.mpr (by rw [hkey]; rfl)

end FPDCommunity

section Runs

variable [QDataStream]

/-- Every listed finger can be removed by its name, and only these. -/
structure RemovableByName (s : System) : Prop where
  zero : 0 ∉ s.fpd.m_fingerMap
  listed : s.fpd.m_state = .FPSTATE_IDLE → ∀ caller, ¬ s.fpd.busyForOther caller →
    ∀ env, ∀ name ∈ s.fpd.GetAll, ∃ k status, k ≠ 0 ∧ s.fpd.m_fingerMap[k]? = some name ∧
      (.remove 0 k, status) ∈ requestsOf (daemon.step s ⟨.call caller (.Remove name), env⟩).2.out
  unlisted : s.fpd.m_state = .FPSTATE_IDLE → ∀ caller, ¬ s.fpd.busyForOther caller →
    ∀ env name, ((daemon.step s ⟨.call caller (.Remove name), env⟩).2.answer =
        some (.reply .FPREPLY_KEY_DOES_NOT_EXIST) ↔ name ∉ s.fpd.GetAll) ∧
      (name ∉ s.fpd.GetAll → (daemon.step s ⟨.call caller (.Remove name), env⟩).1 = s ∧
        (daemon.step s ⟨.call caller (.Remove name), env⟩).2.out = [])

omit [QDataStream] in
theorem FPDCommunity.requestOf_remove {d : FPDCommunity} {caller : String}
    (hs : d.m_state = .FPSTATE_IDLE) (hb : ¬ d.busyForOther caller) (name : String) :
    d.requestOf caller (.Remove name) =
      if d.keyOf name = 0 then none else some (.remove 0 (d.keyOf name)) := by
  simp [requestOf, hs, hb]

omit [QDataStream] in
theorem FPDCommunity.remove_answer {d : FPDCommunity} {caller : String}
    (hs : d.m_state = .FPSTATE_IDLE) (hb : ¬ d.busyForOther caller) (env : Env) (name : String) :
    (invoke env caller (.Remove name) { self := d }).2 = .reply
      (if d.keyOf name = 0 then .FPREPLY_KEY_DOES_NOT_EXIST else .FPREPLY_STARTED) := by
  by_cases hk : d.keyOf name = 0 <;> simp [invoke, Remove, hs, hb, hk]

theorem removableByName_of_zero {s : System} (h0 : 0 ∉ s.fpd.m_fingerMap) :
    RemovableByName s := by
  refine ⟨h0, fun hs caller hb env name hname => ?_, fun hs caller hb env name => ⟨?_, ?_⟩⟩
  · have hk : s.fpd.keyOf name ≠ 0 := fun hk => (keyOf_eq_zero_iff h0).mp hk hname
    have hr : s.fpd.requestOf caller (.Remove name) = some (.remove 0 (s.fpd.keyOf name)) := by
      rw [requestOf_remove hs hb, if_neg hk]
    have hcall : (invoke env caller (.Remove name) { self := s.fpd }).1 = _ := invoke_request hr
    refine ⟨s.fpd.keyOf name, env.hal (.remove 0 (s.fpd.keyOf name)), hk, getElem?_keyOf hname, ?_⟩
    simp [step_call, hcall, Output.request?]
  · rw [step_call, remove_answer hs hb, ← keyOf_eq_zero_iff h0]
    by_cases hk : s.fpd.keyOf name = 0 <;> simp [hk]
  · intro hname
    have hr : s.fpd.requestOf caller (.Remove name) = none := by
      rw [requestOf_remove hs hb, if_pos (keyOf_unlisted hname)]
    have hcall : (invoke env caller (.Remove name) { self := s.fpd }).1 = { self := s.fpd } :=
      invoke_idle hr (by simp)
    simp [step_call, hcall]

/-- No enrolment under the id `0` is about to be handled. -/
def NoZeroEnrolled : List Edge → Edge → Prop := InTime (· = .succeeded 0) fun _ _ => False

theorem zero_not_reported (env : Env) (getprop : String → String)
    (database : Option (List UInt8)) (is : List Input) :
    daemon.Visits (boot env getprop database) is fun _ s =>
      0 ∉ s.fpd.m_androidFP.fingerprints := by
  intro js ks _
  rw [fingerprints_eq, boot_fpd]
  simp [AndroidFP.fingerprints]

/-- Only an enrolment under the id `0` brings it into the map. -/
theorem zero_mem_step {s : System} (h : 0 ∉ s.fpd.m_androidFP.fingerprints)
    (h0 : 0 ∉ s.fpd.m_fingerMap) (past : List Edge) (i : Input) :
    0 ∉ (daemon.step s i).1.fpd.m_fingerMap ↔ NoZeroEnrolled past (daemon.edge s i) := by
  have hmap := (step_edits s i).1
  have hno : (∀ f queue, i.event = .deliver → s.queue = .succeeded f :: queue → f ≠ 0) →
      NoZeroEnrolled past (daemon.edge s i) := by
    rintro hf hd _ queue hq rfl
    exact hf 0 queue hd hq rfl
  rcases s.edit_cases i with he | ⟨hd, f, queue, hq⟩ | ⟨hd, f, queue, hq⟩ | ⟨hd, queue, hq⟩
  · refine iff_of_true (by rw [hmap, he]; exact h0) (hno fun f queue hd hq => ?_)
    rw [System.edit_deliver hd hq] at he
    cases he
  · rw [hmap, System.edit_deliver hd hq]
    by_cases hf : f = 0
    · refine iff_of_false (by simp [signalEdit, Edit.apply, hf]) fun hg => ?_
      exact hg hd _ queue hq (by rw [hf])
    · refine iff_of_true (by simp [signalEdit, Edit.apply, hf, h0]) (hno fun f' queue' _ hq' => ?_)
      rw [hq] at hq'
      cases hq'
      exact hf
  · refine iff_of_true ?_ (hno fun f' queue' _ hq' => by rw [hq] at hq'; cases hq')
    rw [hmap, System.edit_deliver hd hq]
    by_cases hf : f = 0 <;> simp [signalEdit, Edit.apply, hf, h0]
  · refine iff_of_true ?_ (hno fun f' queue' _ hq' => by rw [hq] at hq'; cases hq')
    rw [hmap, System.edit_deliver hd hq]
    exact fun hm => h (mem_reconcile.mp hm)

/-- **Every listed finger can be removed by its name, exactly in the runs that handle no enrolment
under the id `0`.** -/
theorem removable_by_name (env : Env) (getprop : String → String)
    (database : Option (List UInt8)) (is : List Input) :
    (daemon.Visits (boot env getprop database) is fun _ s => RemovableByName s) ↔
      daemon.Along (boot env getprop database) is NoZeroEnrolled := by
  have hreported := zero_not_reported env getprop database is
  refine visits_iff_along_of_invariant hreported.along
    (I := fun _ s => 0 ∉ s.fpd.m_fingerMap) ?_ (fun _ _ => removableByName_of_zero)
    (fun past s i h0 ha hg => ?_) fun past s i h0 ha hremovable => ?_
  · show 0 ∉ (boot env getprop database).fpd.m_fingerMap
    rw [boot_fpd]
    simp
  · exact (zero_mem_step ha.1 h0 past i).mpr hg
  · exact (zero_mem_step ha.1 h0 past i).mp hremovable.zero

/-- A HAL that numbers its templates from `1` keeps `0` out. -/
theorem noZeroEnrolled_of_nonzero (env : Env) (getprop : String → String)
    (database : Option (List UInt8)) {is : List Input}
    (h : ∀ i ∈ is, i.event ≠ .callback (.enrollresult 0 0)) :
    daemon.Along (boot env getprop database) is NoZeroEnrolled := by
  refine inTime_of_prompt rfl ((along_of_forall_mem h).mono fun _ e he => ⟨?_, fun hf => hf.elim⟩)
  rintro cb hcb ⟨_, hm, rfl⟩
  obtain rfl := AndroidFP.posts_of_mem hm
  exact he hcb

end Runs

/-- `:1.5`'s enrolment is reported under the id `0`, and the daemon then knows no finger of the name
it lists. -/
theorem listed_finger_does_not_exist :
    letI := qt56
    let s := daemon.final (boot (.answering SYS_OK) (fun _ => "") none)
      [⟨.callback (.enumerate 0 0), .answering SYS_OK⟩, ⟨.deliver, .answering SYS_OK⟩,
        ⟨.call ":1.5" (.Enroll "left"), .answering SYS_OK⟩,
        ⟨.callback (.enrollresult 0 0), .answering SYS_OK⟩,
        ⟨.deliver, .answering SYS_OK⟩, ⟨.deliver, .answering SYS_OK⟩]
    s.fpd.GetAll = ["left"] ∧ s.fpd.m_state = .FPSTATE_IDLE ∧
      (daemon.step s ⟨.call ":1.5" (.Remove "left"), .answering SYS_OK⟩).2 =
        { answer := some (.reply .FPREPLY_KEY_DOES_NOT_EXIST) } ∧
      ¬ RemovableByName s := by
  let := qt56
  exact ⟨by decide, by decide, by decide, fun h => absurd h.zero (by decide)⟩

end SailfishFpd

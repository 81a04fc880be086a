import SailfishFpd.Session.Timely
import SailfishFpd.Store.Persistence

/-!
# Wipes

`m_removingFinger = 0` says that the whole list is being cleared, and also that
nothing is being removed. A last `removed` report that comes when nothing is
being removed is taken for the end of a `Clear` and wipes the list. Fingers
leave the list one by one otherwise, each after the HAL reported it. The file
follows the list, so before the first enumeration a removal also takes off the
file what was never on the list.
-/

namespace SailfishFpd

open Reactive.Machine (along_true along_cons along_nil along_snoc along_of_forall_mem)

/-- The slot of the signal may put the finger on the list. -/
def Signal.mayAdd (finger : UInt32) : Signal → Bool
  | .succeeded fingerId => fingerId == finger
  | .enumerated => true
  | _ => false

/-- The HAL reported the removal of the finger, and whatever was posted since that may put it on the
list again is still queued. -/
def ReportedRemoved (past : List Edge) (s : System) (finger : UInt32) : Prop :=
  ∃ before e after remaining, past = before ++ e :: after ∧
    e.input.event = .callback (.removed finger remaining) ∧
    (after.flatMap posted).countP (Signal.mayAdd finger) ≤ s.queue.countP (Signal.mayAdd finger)

/-- A `Clear` was accepted and has not ended. -/
def ClearRuns (past : List Edge) (s : System) : Prop :=
  s.fpd.m_state = .FPSTATE_REMOVING ∧ ∃ caller, lastAccepted past = some (caller, .Clear)

instance (past : List Edge) (s : System) : Decidable (ClearRuns past s) :=
  decidable_of_iff
    (s.fpd.m_state = .FPSTATE_REMOVING ∧ (lastAccepted past).map Prod.snd = some .Clear)
    (and_congr_right' (by simp))

def MayLeave (past : List Edge) (s : System) (finger : UInt32) : Prop :=
  ReportedRemoved past s finger ∨ ClearRuns past s

/-- The step runs `slot_removed`. -/
def HandlesRemoved (e : Edge) : Prop :=
  e.input.event = .deliver ∧ ∃ finger queue, e.src.queue = .removed finger :: queue

def Signal.isRemoved : Signal → Bool
  | .removed _ => true
  | _ => false

instance : DecidablePred HandlesRemoved := fun e =>
  decidable_of_iff (e.input.event = .deliver ∧ e.src.queue.head?.any Signal.isRemoved = true)
    (and_congr_right' (by
      cases e.src.queue with
      | nil => simp
      | cons signal queue => cases signal <;> simp [Signal.isRemoved]))

def Signal.IsWipe (signal : Signal) : Prop := signal = .removed 0

instance : DecidablePred Signal.IsWipe := fun signal => inferInstanceAs (Decidable (signal = _))

/-- If the whole list is about to be removed, a `Clear` runs. -/
def WipeInTime : List Edge → Edge → Prop := InTime Signal.IsWipe ClearRuns

/-- The removal of the whole list is posted while a `Clear` runs and no signal that ends it is
queued, and while it is queued neither an `Abort` nor the timer ends the `Clear`. -/
abbrev WipeTimely [QDataStream] : List Edge → Edge → Prop :=
  Timely Signal.IsWipe .FPSTATE_REMOVING ClearRuns

section Queued

variable [QDataStream]

/-- A signal that is queued was posted by a callback, and behind it is what was posted since. -/
def PostedInOrder (past : List Edge) (s : System) : Prop :=
  ∀ front signal back, s.queue = front ++ signal :: back →
    ∃ before e after front' back', past = before ++ e :: after ∧
      posted e = front' ++ signal :: back' ∧ back = back' ++ after.flatMap posted

theorem posted_step {past : List Edge} {s : System} {i : Input} (h : PostedInOrder past s) :
    PostedInOrder (past ++ [daemon.edge s i]) (daemon.step s i).1 := by
  intro front signal back hq
  rw [System.queue_step] at hq
  rcases queued_or_posted hq with ⟨front', -, hposted⟩ | ⟨rest, hqueue, rfl⟩
  · exact ⟨past, _, [], front', back, rfl, hposted, (List.append_nil _).symm⟩
  · obtain ⟨first, hfirst⟩ : ∃ first, s.queue = first ++ signal :: rest := by
      split at hqueue
      · cases hs : s.queue with
        | nil => simp [hs] at hqueue
        | cons x queue => exact ⟨x :: front, by simpa [hs] using hqueue⟩
      · exact ⟨front, hqueue⟩
    obtain ⟨before, e, after, front', back', rfl, hposted, rfl⟩ := h first signal rest hfirst
    exact ⟨before, e, after ++ [daemon.edge s i], front', back', by simp, hposted, by simp⟩

theorem visits_posted (env : Env) (getprop : String → String) (database : Option (List UInt8))
    (is : List Input) : daemon.Visits (boot env getprop database) is PostedInOrder := by
  refine along_true.visits (fun front signal back hq => ?_) fun _ _ _ h _ => posted_step h
  have hnone : (boot env getprop database).queue = [] := rfl
  simp [hnone] at hq

omit [QDataStream] in
/-- A removal of one finger that is about to be handled was reported for that finger, and what was
posted since is queued behind it. -/
theorem reported_of_posted {past : List Edge} {s : System} (h : PostedInOrder past s)
    {finger : UInt32} {queue : List Signal} (hf : finger ≠ 0)
    (hq : s.queue = .removed finger :: queue) :
    ReportedRemoved past s finger := by
  obtain ⟨before, e, after, front', back', rfl, hposted, rfl⟩ := h [] _ queue hq
  have hmem : .removed finger ∈ posted e := by simp [hposted]
  cases hevent : e.input.event with
  | callback cb =>
    simp only [posted, hevent] at hmem
    obtain ⟨-, f, rfl, heq⟩ := AndroidFP.posts_of_mem hmem
    obtain rfl := heq hf
    refine ⟨before, e, after, 0, rfl, hevent, ?_⟩
    rw [hq, List.countP_cons, List.countP_append]
    omega
  | _ => simp [posted, hevent] at hmem

theorem lasts_clear : Lasts .FPSTATE_REMOVING ClearRuns where
  busy := by simp
  state h := h.1
  stay {past s i} hm := by
    have hlasts : Lasts .FPSTATE_REMOVING fun _ t => t.fpd.m_state = .FPSTATE_REMOVING :=
      lasts_state (by simp)
    have hstate : (daemon.step s i).1.fpd.m_state = .FPSTATE_REMOVING ↔
        s.fpd.m_state = .FPSTATE_REMOVING := @Lasts.stay _ _ _ hlasts past s i hm
    have hlast : lastAccepted (past ++ [daemon.edge s i]) = lastAccepted past := by
      rw [lastAccepted, Reactive.Machine.latest_snoc, accepted_edge, hm]
      rfl
    rw [ClearRuns, ClearRuns, hlast]
    exact and_congr_left' hstate

end Queued

section Runs

variable [QDataStream]

/-- In a run, only what may leave the list is taken off it by `slot_removed`. -/
def KeepsList (s : System) (is : List Input) : Prop :=
  daemon.Along s is fun past e => HandlesRemoved e →
    ∀ finger name, e.src.fpd.m_fingerMap[finger]? = some name →
      e.dst.fpd.m_fingerMap[finger]? ≠ some name → MayLeave past e.src finger

/-- In a run, only what may leave the file is taken off it by `slot_removed`. -/
def KeepsFile (s : System) (is : List Input) : Prop :=
  daemon.Along s is fun past e => HandlesRemoved e →
    ∀ finger name, e.src.fpd.Stores finger name → ¬ e.dst.fpd.Stores finger name →
      MayLeave past e.src finger

theorem removed_map {s : System} {i : Input} {finger : UInt32} {queue : List Signal}
    (hd : i.event = .deliver) (hq : s.queue = .removed finger :: queue) :
    (daemon.step s i).1.fpd.m_fingerMap =
      if finger = 0 then ∅ else s.fpd.m_fingerMap.erase finger := by
  rw [(step_edits s i).1, System.edit_deliver hd hq, FPDCommunity.signalEdit]
  by_cases hf : finger = 0 <;> simp [hf, Edit.apply]

theorem mayLeave_of_removed {past : List Edge} {s : System} {i : Input} (h : PostedInOrder past s)
    (hwipe : WipeInTime past (daemon.edge s i)) (hremoved : HandlesRemoved (daemon.edge s i))
    {finger : UInt32} {name : String} (hname : s.fpd.m_fingerMap[finger]? = some name)
    (hgone : (daemon.step s i).1.fpd.m_fingerMap[finger]? ≠ some name) :
    MayLeave past s finger := by
  obtain ⟨hd, f, queue, hq⟩ := hremoved
  by_cases hf : f = 0
  · subst hf
    exact .inr (hwipe hd _ queue hq rfl)
  · have hmap := removed_map (s := s) (i := i) hd hq
    rw [if_neg hf] at hmap
    have heq : finger = f := by
      by_contra hne
      rw [hmap, Std.ExtTreeMap.getElem?_erase] at hgone
      exact hgone (by simpa [Ne.symm hne] using hname)
    subst heq
    exact .inl (reported_of_posted h hf hq)

variable (env : Env) (getprop : String → String) (database : Option (List UInt8))

theorem keepsList_of_inTime {is : List Input}
    (h : daemon.Along (boot env getprop database) is WipeInTime) :
    KeepsList (boot env getprop database) is := by
  refine h.of_visits (visits_posted env getprop database is) ?_
  exact fun _ _ _ hposted hwipe hremoved _ _ => mayLeave_of_removed hposted hwipe hremoved

theorem keepsFile_of_keepsList [LawfulQDataStream] {is : List Input}
    (hlist : KeepsList (boot env getprop database) is) (hfiles : ∀ i ∈ is, i.env.FilesOk)
    (hloaded : daemon.Along (boot env getprop database) is fun past e =>
      HandlesRemoved e → Loaded past) : KeepsFile (boot env getprop database) is := by
  have hsteps := (hlist.and hloaded).and (along_of_forall_mem hfiles)
  refine hsteps.of_visits (persisted_of_loaded env getprop database hfiles) ?_
  rintro past s i hpersisted ⟨⟨hlist, hl⟩, hf⟩ hremoved finger name hstores hgone
  have hs : s.fpd.Persisted := hpersisted (hl hremoved)
  have hs' : (daemon.step s i).1.fpd.Persisted := step_persisted hf hs
  exact hlist hremoved finger name (hs.stores_iff.mp hstores) fun h => hgone (hs'.stores_iff.mpr h)

/-- If only what may leaves a list that is removed outside a `Clear`, all of it was reported. -/
theorem reported_of_keepsList {s : System} {is : List Input} {queue : List Signal}
    (hq : (daemon.final s is).queue = .removed 0 :: queue)
    (hno : ¬ ClearRuns (daemon.edges s is) (daemon.final s is))
    (h : KeepsList s (is ++ [⟨.deliver, env⟩])) :
    ∀ finger ∈ (daemon.final s is).fpd.m_fingerMap,
      ReportedRemoved (daemon.edges s is) (daemon.final s is) finger := by
  intro finger hm
  have hmap := removed_map (i := ⟨.deliver, env⟩) rfl hq
  rw [if_pos rfl] at hmap
  obtain ⟨name, hname⟩ := Option.isSome_iff_exists.mp (Std.ExtTreeMap.mem_iff_isSome_getElem?.mp hm)
  have hleave := (along_snoc.mp h).2 ⟨rfl, 0, queue, hq⟩ finger name hname (by simp [hmap])
  exact hleave.resolve_right hno

/-- **Fingers leave the list only when the HAL reported them or a `Clear` runs, as long as nothing
overtakes the removal of the whole list**; so do they leave the file, once the list was loaded. A
run in which one is overtaken has a prefix after which handling what is queued removes the whole
list outside a `Clear`, with all the fingers that the HAL did not report. -/
theorem removed_in_time [LawfulQDataStream] (is : List Input) :
    (daemon.Along (boot env getprop database) is WipeTimely →
        KeepsList (boot env getprop database) is ∧
          ((∀ i ∈ is, i.env.FilesOk) →
            (daemon.Along (boot env getprop database) is fun past e =>
              HandlesRemoved e → Loaded past) → KeepsFile (boot env getprop database) is)) ∧
      (¬ daemon.Along (boot env getprop database) is WipeTimely →
        ∀ env', ∃ js ks n, is = js ++ ks ∧
          let ds := js ++ List.replicate n ⟨.deliver, env'⟩
          let past := daemon.edges (boot env getprop database) ds
          let s := daemon.final (boot env getprop database) ds
          (∃ queue, s.queue = .removed 0 :: queue) ∧ ¬ ClearRuns past s ∧
            (KeepsList (boot env getprop database) (ds ++ [⟨.deliver, env'⟩]) →
              ∀ finger ∈ s.fpd.m_fingerMap, ReportedRemoved past s finger)) := by
  refine ⟨fun h => ?_, fun h env' => ?_⟩
  · have hlist := keepsList_of_inTime env getprop database
      (inTime_of_timely lasts_clear (by simp) rfl h)
    exact ⟨hlist, keepsFile_of_keepsList env getprop database hlist⟩
  · obtain ⟨js, ks, n, _, queue, hjs, hqueue, rfl, hno⟩ :=
      exists_late_of_not_timely lasts_clear (by simp) rfl env' h
    exact ⟨js, ks, n, hjs, ⟨queue, hqueue⟩, hno, reported_of_keepsList env' hqueue hno⟩

end Runs

/-- The last report of a `Clear` takes all fingers off the list and off the file. -/
theorem removed_in_time_clear :
    letI := qt56
    let is : List Input := [⟨.callback (.enumerate 7 1), .answering SYS_OK⟩,
      ⟨.callback (.enumerate 8 0), .answering SYS_OK⟩, ⟨.deliver, .answering SYS_OK⟩,
      ⟨.call ":1.5" .Clear, .answering SYS_OK⟩, ⟨.callback (.removed 8 1), .answering SYS_OK⟩,
      ⟨.callback (.removed 7 0), .answering SYS_OK⟩, ⟨.deliver, .answering SYS_OK⟩]
    let s := boot (.answering SYS_OK) (fun _ => "") none
    KeepsList s is ∧ KeepsFile s is ∧ (daemon.final s is).fpd.m_fingerMap.toList = [] := by
  let := qt56
  have := qt56_lawful
  intro is s
  have htimely : daemon.Along s is WipeTimely :=
    along_cons (by decide) (along_cons (by decide) (along_cons (by decide) (along_cons (by decide)
      (along_cons (by decide) (along_cons (by decide) (along_cons (by decide) along_nil))))))
  have hfiles : ∀ i ∈ is, i.env.FilesOk := by simp [is, answering_filesOk]
  have hloaded : daemon.Along s is fun past e => HandlesRemoved e → Loaded past :=
    along_cons (by decide) (along_cons (by decide) (along_cons (by decide) (along_cons (by decide)
      (along_cons (by decide) (along_cons (by decide) (along_cons (by decide) along_nil))))))
  obtain ⟨hlist, hfile⟩ := (removed_in_time _ _ _ is).1 htimely
  exact ⟨hlist, hfile hfiles hloaded, by decide⟩

/-- `:1.5` removes the first of two fingers; the HAL reports the removal twice, and the second
report takes the other finger off the list and off the file. -/
theorem duplicate_report_wipes :
    letI := qt56
    let s := daemon.final (boot (.answering SYS_OK) (fun _ => "") none)
      [⟨.callback (.enumerate 7 1), .answering SYS_OK⟩,
        ⟨.callback (.enumerate 8 0), .answering SYS_OK⟩, ⟨.deliver, .answering SYS_OK⟩,
        ⟨.call ":1.5" (.Remove "Unknown 7"), .answering SYS_OK⟩,
        ⟨.callback (.removed 7 0), .answering SYS_OK⟩, ⟨.deliver, .answering SYS_OK⟩,
        ⟨.callback (.removed 7 0), .answering SYS_OK⟩]
    s.fpd.m_state = .FPSTATE_IDLE ∧ s.fpd.m_fingerMap.toList = [(8, "Unknown 8")] ∧
      (daemon.step s ⟨.deliver, .answering SYS_OK⟩).1.fpd.m_fingerMap.toList = [] ∧
      (daemon.step s ⟨.deliver, .answering SYS_OK⟩).1.fpd.database = some [0, 0, 0, 0] := by
  decide

end SailfishFpd

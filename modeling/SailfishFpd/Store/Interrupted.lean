import SailfishFpd.Delivery
import SailfishFpd.Hal.Templates
import SailfishFpd.Store.Names

/-!
# An interrupted `Clear`

While the HAL clears, it reports every template it deletes, with the number that
is left. `removeCallback` passes on only the last of these reports, so a `Clear`
that stops half-way leaves the map and the file as they were before it, with the
deleted fingers in them.
-/

namespace SailfishFpd

open FPDCommunity
open Reactive.Machine (along_cons along_nil visits_cons visits_nil)

def Deletes (e : Edge) : Prop :=
  ∃ finger remaining, e.input.event = .callback (.removed finger remaining)

/-- What a HAL that clears reports: each deletion, with the number that is left, acquisitions and
errors. It held `T` when it began. -/
def HalClears (T : List UInt32) (past : List Edge) (e : Edge) : Prop :=
  ∀ cb, e.input.event = .callback cb →
    match cb with
    | .removed finger remaining =>
      finger ∈ templates T past ∧ remaining = left (templates T (past ++ [e]))
    | .acquired _ | .error .. => True
    | .enrollresult .. | .authenticated _ | .enumerate .. => False

/-- The slots of these signals leave the list alone. -/
def Signal.keepsList : Signal → Bool
  | .succeeded _ | .removed _ | .enumerated => false
  | .failed _ | .authenticated _ | .enrollProgress _ | .acquired _ => true

/-- The keys of the map are `T`, and will be when the queued signals are handled. -/
structure InSyncWith (T : List UInt32) (s : System) : Prop where
  keys : ∀ k, k ∈ s.fpd.m_fingerMap ↔ k ∈ T
  quiet : ∀ signal ∈ s.queue, signal.keepsList = true

/-- The daemon waits for the end of a `Clear`, with the map `m` and the file `database`. -/
structure Clearing (m : FingerMap) (database : Option (List UInt8)) (s : System) : Prop where
  state : s.fpd.m_state = .FPSTATE_REMOVING
  removing : s.fpd.m_androidFP.m_removingFinger = 0
  quiet : ∀ signal ∈ s.queue, signal.keepsList = true
  map : s.fpd.m_fingerMap = m
  database : s.fpd.database = database

/-- Nothing is deleted yet, or a template of `T` is gone. -/
def DeletedFrom (T : List UInt32) (past : List Edge) : Prop :=
  (∀ e ∈ past, ¬ Deletes e) ∧ templates T past = T ∨
    (∃ e ∈ past, Deletes e) ∧ ∃ k ∈ T, k ∉ templates T past

/-- A `Clear` that runs in state `t` goes on during `is`, and stops with `i` when some of the
templates `T` are left. -/
structure StopsClear [QDataStream] (T : List UInt32) (t : System) (is : List Input) (i : Input) :
    Prop where
  reports : daemon.Along t (is ++ [i]) (HalClears T)
  busy : daemon.Visits t is fun _ u => u.fpd.m_state ≠ .FPSTATE_IDLE
  idle : (daemon.final t (is ++ [i])).fpd.m_state = .FPSTATE_IDLE
  left : templates T (daemon.edges t (is ++ [i])) ≠ []

section Templates

variable {T : List UInt32} {past : List Edge} {e : Edge}

theorem templates_snoc : templates T (past ++ [e]) = templatesAfter (templates T past) e := by
  simp [templates]

theorem templates_step (hhal : HalClears T past e) :
    (¬ Deletes e ∧ templates T (past ++ [e]) = templates T past) ∨
      ∃ finger remaining, e.input.event = .callback (.removed finger remaining) ∧
        finger ∈ templates T past ∧
        templates T (past ++ [e]) = (templates T past).filter (· ≠ finger) := by
  rw [templates_snoc]
  unfold templatesAfter Deletes
  cases hev : e.input.event with
  | callback cb =>
    have h := hhal cb hev
    cases cb with
    | removed finger remaining => exact .inr ⟨finger, remaining, rfl, h.1, rfl⟩
    | acquired info | error code vendorCode => exact .inl ⟨by simp, rfl⟩
    | enrollresult finger remaining | authenticated finger | enumerate finger remaining =>
      exact h.elim
  | call caller c | timeout | deliver => exact .inl ⟨by simp, rfl⟩

theorem templates_nodup (hnodup : (templates T past).Nodup) (hhal : HalClears T past e) :
    (templates T (past ++ [e])).Nodup := by
  rcases templates_step hhal with ⟨-, hsame⟩ | ⟨finger, remaining, -, -, hgone⟩
  · rwa [hsame]
  · rw [hgone]
    exact hnodup.filter _

theorem templates_nil (hnil : templates T past = []) (hhal : HalClears T past e) :
    templates T (past ++ [e]) = [] := by
  rcases templates_step hhal with ⟨-, hsame⟩ | ⟨finger, remaining, -, hm, -⟩
  · rw [hsame, hnil]
  · rw [hnil] at hm
    cases hm

theorem DeletedFrom.snoc (h : DeletedFrom T past) (hhal : HalClears T past e) :
    DeletedFrom T (past ++ [e]) := by
  unfold DeletedFrom at h ⊢
  rcases templates_step hhal with ⟨hno, hsame⟩ | ⟨finger, remaining, hev, hm, hgone⟩
  · rw [hsame]
    rcases h with ⟨hnone, hT⟩ | ⟨⟨e', he', hd⟩, hk⟩
    · refine .inl ⟨fun e' he' => ?_, hT⟩
      rcases List.mem_append.mp he' with he' | he'
      · exact hnone e' he'
      · rwa [List.mem_singleton.mp he']
    · exact .inr ⟨⟨e', List.mem_append_left _ he', hd⟩, hk⟩
  · refine .inr ⟨⟨e, by simp, finger, remaining, hev⟩, ?_⟩
    rw [hgone]
    rcases h with ⟨-, hT⟩ | ⟨-, k, hk, hout⟩
    · exact ⟨finger, hT ▸ hm, by simp⟩
    · exact ⟨k, hk, fun h => hout (List.mem_of_mem_filter h)⟩

end Templates

section Runs

variable [QDataStream] {m : FingerMap} {database : Option (List UInt8)} {s : System}
  {T : List UInt32} {past : List Edge} {i : Input}

/-- The ids in the database file are `T`. -/
def InFile (T : List UInt32) (d : FPDCommunity) : Prop :=
  ∃ bytes, d.database = some bytes ∧ ∀ k, k ∈ QDataStream.read bytes ↔ k ∈ T

/-- The list and the file hold exactly the templates `T`. -/
def HoldsTemplates (T : List UInt32) (d : FPDCommunity) : Prop :=
  (∀ k, k ∈ d.m_fingerMap ↔ k ∈ T) ∧ InFile T d

theorem System.edit_of_quiet (h : ∀ signal ∈ s.queue, signal.keepsList = true) (i : Input) :
    s.edit i = .keep := by
  have hfirst : ∀ signal queue, s.queue = signal :: queue → signal.keepsList = true :=
    fun signal queue hq => h signal (by simp [hq])
  rcases s.edit_cases i with he | ⟨-, f, queue, hq⟩ | ⟨-, f, queue, hq⟩ | ⟨-, queue, hq⟩
  · exact he
  · cases hfirst _ queue hq
  · cases hfirst _ queue hq
  · cases hfirst _ queue hq

theorem clearing_callback (h : Clearing m database s) (hhal : HalClears T past (daemon.edge s i))
    (hnodup : (templates T past).Nodup) (hleft : templates T (past ++ [daemon.edge s i]) ≠ [])
    {cb : Callback} (hcb : i.event = .callback cb) :
    (s.fpd.m_androidFP.callback i.env.hal cb).self.m_removingFinger = 0 ∧
      ∀ signal ∈ (s.fpd.m_androidFP.callback i.env.hal cb).signals,
        signal.keepsList = true := by
  have hreport := hhal cb hcb
  cases cb with
  | removed finger remaining =>
    have hne : remaining ≠ 0 := by
      rintro rfl
      have hgone : finger ∉ templates T (past ++ [daemon.edge s i]) := by
        rw [templates_snoc]
        simp [templatesAfter, hcb]
      exact hleft ((left_eq_zero (templates_nodup hnodup hhal) hgone).mp hreport.2.symm)
    simp [AndroidFP.callback, AndroidFP.removeCallback, hne, h.removing]
  | acquired info =>
    simp [AndroidFP.callback, AndroidFP.acquiredCallback, h.removing, Signal.keepsList]
  | error code vendorCode =>
    by_cases hc : code = ERROR_NO_ERROR <;>
      simp [AndroidFP.callback, hc, h.removing, Signal.keepsList]
  | enrollresult finger remaining | authenticated finger | enumerate finger remaining =>
    exact hreport.elim

/-- Until everything is deleted, a step leaves the map and the file alone, and goes on with the
`Clear` or ends it. -/
theorem clearing_step (h : Clearing m database s) (hhal : HalClears T past (daemon.edge s i))
    (hnodup : (templates T past).Nodup) (hleft : templates T (past ++ [daemon.edge s i]) ≠ []) :
    (daemon.step s i).1.fpd.m_fingerMap = m ∧ (daemon.step s i).1.fpd.database = database ∧
      ((daemon.step s i).1.fpd.m_state ≠ .FPSTATE_IDLE →
        Clearing m database (daemon.step s i).1) := by
  have hbusy : s.fpd.m_state ≠ .FPSTATE_IDLE := by simp [h.state]
  obtain ⟨hmap, hdb, -⟩ := step_edits s i
  rw [System.edit_of_quiet h.quiet] at hmap hdb
  have hmap' := hmap.trans h.map
  have hdb' := hdb.trans h.database
  refine ⟨hmap', hdb', fun hs => ⟨?_, ?_, fun signal hm => ?_, hmap', hdb'⟩⟩
  · have hc := (step_makes s i).1
    rw [System.move_eq_stay hbusy hs] at hc
    exact (congrArg Control.state hc).trans h.state
  · rw [step_androidFP]
    cases hev : i.event with
    | callback cb => exact (clearing_callback h hhal hnodup hleft hev).1
    | call caller c => simp [requestOf_busy (.inr hbusy), h.removing]
    | timeout | deliver => exact h.removing
  · rcases System.mem_queue hm with hq | ⟨cb, hcb, hq⟩
    · exact h.quiet signal hq
    · exact (clearing_callback h hhal hnodup hleft hcb).2 signal hq

theorem clearing_of_clear {env : Env} {caller : String} (hs : s.fpd.m_state = .FPSTATE_IDLE)
    (hsync : InSyncWith T s) (hcaller : ¬ s.fpd.busyForOther caller)
    (haccepted : env.hal (.remove 0 0) = SYS_OK) :
    Clearing s.fpd.m_fingerMap s.fpd.database
      (daemon.step s ⟨.call caller .Clear, env⟩).1 := by
  have hr : s.fpd.requestOf caller .Clear = some (.remove 0 0) := by
    simp [requestOf, hcaller, hs]
  have hcall : (invoke env caller .Clear { self := s.fpd }).1 = _ := invoke_request hr
  rw [step_call, hcall, haccepted]
  exact ⟨rfl, rfl, hsync.quiet, rfl, rfl⟩

/-- As long as the daemon is not idle the `Clear` goes on, or has deleted everything. -/
theorem clearing_run (h : Clearing m database s) (hnodup : T.Nodup) {is : List Input}
    (hhal : daemon.Along s is (HalClears T))
    (hbusy : daemon.Visits s is fun _ t => t.fpd.m_state ≠ .FPSTATE_IDLE) :
    templates T (daemon.edges s is) = [] ∨
      Clearing m database (daemon.final s is) ∧ (templates T (daemon.edges s is)).Nodup ∧
        DeletedFrom T (daemon.edges s is) := by
  refine (hhal.and hbusy.along).invariant (I := fun past t => templates T past = [] ∨
    Clearing m database t ∧ (templates T past).Nodup ∧ DeletedFrom T past)
    (.inr ⟨h, hnodup, .inl ⟨by simp, rfl⟩⟩) ?_
  rintro past t i (hnil | ⟨h, hnodup, hdeleted⟩) ⟨hhal, -, hs⟩
  · exact .inl (templates_nil hnil hhal)
  · by_cases hleft : templates T (past ++ [daemon.edge t i]) = []
    · exact .inl hleft
    · refine .inr ⟨?_, templates_nodup hnodup hhal, hdeleted.snoc hhal⟩
      exact (clearing_step h hhal hnodup hleft).2.2 hs

/-- With the map and the file of a list that was in sync with `T`, only what was deleted since
matters. -/
theorem holdsTemplates_iff {d d' : FPDCommunity} (hkeys : ∀ k, k ∈ d.m_fingerMap ↔ k ∈ T)
    (hmap : d'.m_fingerMap = d.m_fingerMap) (hdb : d'.database = d.database)
    (hdeleted : DeletedFrom T past) :
    HoldsTemplates (templates T past) d' ↔ (∀ e ∈ past, ¬ Deletes e) ∧ InFile T d := by
  unfold HoldsTemplates InFile
  rw [hmap, hdb]
  rcases hdeleted with ⟨hnone, hT⟩ | ⟨⟨e, he, hd⟩, k, hk, hgone⟩
  · rw [hT]
    exact ⟨fun h => ⟨hnone, h.2⟩, fun h => ⟨hkeys, h.2⟩⟩
  · refine ⟨fun h => absurd ((h.1 k).mp ((hkeys k).mpr hk)) hgone, fun h => ?_⟩
    exact absurd hd (h.1 e he)

/-- **An interrupted `Clear` keeps the list right only when it deleted nothing.** An accepted
`Clear`, of a list that is in sync with the templates `T`, stops when some are left: then the list
and the file hold those exactly when no deletion was reported and the file held `T` before. -/
theorem interrupted_clear {env : Env} {caller : String} (hs : s.fpd.m_state = .FPSTATE_IDLE)
    (hsync : InSyncWith T s) (hnodup : T.Nodup) (hcaller : ¬ s.fpd.busyForOther caller)
    (haccepted : env.hal (.remove 0 0) = SYS_OK) {is : List Input} {i : Input}
    (h : StopsClear T (daemon.step s ⟨.call caller .Clear, env⟩).1 is i) :
    let t := (daemon.step s ⟨.call caller .Clear, env⟩).1
    let past := daemon.edges t (is ++ [i])
    HoldsTemplates (templates T past) (daemon.final t (is ++ [i])).fpd ↔
      (∀ e ∈ past, ¬ Deletes e) ∧ InFile T s.fpd := by
  intro t past
  have hleft := h.left
  obtain ⟨hhal, hlast⟩ := Reactive.Machine.along_snoc.mp h.reports
  have hclearing := clearing_of_clear hs hsync hcaller haccepted
  rcases clearing_run hclearing hnodup hhal h.busy with hnil | ⟨hc, hrest, hdeleted⟩
  · rw [daemon.edges_snoc] at hleft
    exact absurd (templates_nil hnil hlast) hleft
  · have hpast : past = daemon.edges t is ++ [daemon.edge (daemon.final t is) i] :=
      daemon.edges_snoc t is i
    rw [daemon.edges_snoc] at hleft
    obtain ⟨hmap, hdb, -⟩ := clearing_step hc hlast hrest hleft
    rw [hpast, daemon.final_snoc]
    exact holdsTemplates_iff hsync.keys hmap hdb (hdeleted.snoc hlast)

end Runs

/-- A `Clear` aborted before it deletes anything leaves the list and the file right. -/
theorem interrupted_clear_abort :
    letI := qt56
    let env := Env.answering SYS_OK
    let s := daemon.final (boot env (fun _ => "") none)
      [⟨.callback (.enumerate 7 1), env⟩, ⟨.callback (.enumerate 8 0), env⟩, ⟨.deliver, env⟩]
    let t := daemon.final s [⟨.call ":1.5" .Clear, env⟩, ⟨.call ":1.5" .Abort, env⟩]
    HoldsTemplates [7, 8] t.fpd := by
  let := qt56
  have := qt56_lawful
  intro env s t
  have hkeys : s.fpd.m_fingerMap.keys = [7, 8] := by decide +kernel
  have hsync : InSyncWith [7, 8] s := by
    refine ⟨fun k => ?_, fun signal hm => absurd hm List.not_mem_nil⟩
    rw [← hkeys, Std.ExtTreeMap.mem_keys]
  have hdatabase : s.fpd.database = some (QDataStream.write s.fpd.m_fingerMap) := by decide +kernel
  have hfile : InFile [7, 8] s.fpd := by
    refine ⟨_, hdatabase, fun k => ?_⟩
    rw [LawfulQDataStream.read_write]
    exact hsync.keys k
  have hstops : StopsClear [7, 8] (daemon.step s ⟨.call ":1.5" .Clear, env⟩).1 []
      ⟨.call ":1.5" .Abort, env⟩ := by
    refine ⟨along_cons (fun cb hcb => ?_) along_nil, visits_nil (by decide), by decide, by decide⟩
    cases hcb
  refine (interrupted_clear (by decide) hsync (by decide) (by decide) rfl hstops).mpr ⟨?_, hfile⟩
  intro e he
  obtain rfl := List.mem_singleton.mp he
  rintro ⟨finger, remaining, hev⟩
  cases hev

/-- Aborted after one deletion, it leaves the deleted finger listed. -/
theorem deleted_finger_stays_listed :
    letI := qt56
    let env := Env.answering SYS_OK
    let s := daemon.final (boot env (fun _ => "") none)
      [⟨.callback (.enumerate 7 1), env⟩, ⟨.callback (.enumerate 8 0), env⟩, ⟨.deliver, env⟩]
    let t := (daemon.step s ⟨.call ":1.5" .Clear, env⟩).1
    let is : List Input := [⟨.callback (.removed 7 1), env⟩]
    let u := daemon.final t (is ++ [⟨.call ":1.5" .Abort, env⟩])
    InSyncWith [7, 8] s ∧ StopsClear [7, 8] t is ⟨.call ":1.5" .Abort, env⟩ ∧
      templates [7, 8] (daemon.edges t (is ++ [⟨.call ":1.5" .Abort, env⟩])) = [8] ∧
      u.fpd.m_fingerMap.keys = [7, 8] ∧ ¬ HoldsTemplates [8] u.fpd := by
  let := qt56
  intro env s t is u
  have hkeys : s.fpd.m_fingerMap.keys = [7, 8] := by decide +kernel
  have hsync : InSyncWith [7, 8] s := by
    refine ⟨fun k => ?_, fun signal hm => absurd hm List.not_mem_nil⟩
    rw [← hkeys, Std.ExtTreeMap.mem_keys]
  have hlisted : u.fpd.m_fingerMap.keys = [7, 8] := by decide +kernel
  have hleft : templates [7, 8] (daemon.edges t (is ++ [⟨.call ":1.5" .Abort, env⟩])) = [8] := by
    decide
  have hstops : StopsClear [7, 8] t is ⟨.call ":1.5" .Abort, env⟩ := by
    refine ⟨along_cons (fun cb hcb => ?_) (along_cons (fun cb hcb => ?_) along_nil),
      visits_cons (by decide) (visits_nil (by decide)), by decide, by simp [hleft]⟩
    · cases hcb
      exact ⟨by decide, by decide⟩
    · cases hcb
  refine ⟨hsync, hstops, hleft, hlisted, fun h => ?_⟩
  have hin : (7 : UInt32) ∈ [8] := (h.1 7).mp (by rw [← Std.ExtTreeMap.mem_keys, hlisted]; simp)
  exact absurd hin (by decide)

end SailfishFpd

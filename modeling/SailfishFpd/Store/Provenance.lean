import SailfishFpd.QtStream
import SailfishFpd.Session.History
import SailfishFpd.Store.Edits
import SailfishFpd.Store.Reconcile

/-!
# Where names come from

The daemon can be killed between any two handlers and started again, and its
file operations can fail, also half-way through a write. Every name it keeps or
tells its clients has a `Source` all the same: a client enrolled it, the file
that the first daemon found has it, it is generated, or it is empty. And a name
that is kept for a finger has its `Origin` with this finger.
-/

namespace SailfishFpd

open FPDCommunity
open Reactive (Life)

/-! ## The names clients are told -/

def Output.name : Output → Option String
  | .signal (.Added name) | .signal (.Removed name) | .signal (.Identified name) => some name
  | _ => none

def names (out : List Output) : List String := out.filterMap Output.name

@[simp] theorem names_nil : names [] = [] := rfl

@[simp] theorem names_cons (o : Output) (out : List Output) :
    names (o :: out) = o.name.toList ++ names out :=
  filterMap_output_cons Output.name o out

@[simp] theorem names_append (a b : List Output) : names (a ++ b) = names a ++ names b :=
  List.filterMap_append

@[simp] theorem names_stateChange (old new : State) : names (stateChange old new) = [] :=
  filterMap_stateChange (fun _ => rfl) old new

@[simp] theorem names_map_request (rs : List (Request × Int)) :
    names (rs.map fun p => .request p.1 p.2) = [] :=
  filterMap_map_none (fun _ => rfl) rs

@[simp] theorem names_map_removed (fs : List String) :
    names (fs.map fun f => .signal (.Removed f)) = fs := by
  induction fs with
  | nil => rfl
  | cons f fs ih => simpa [Output.name] using ih

@[simp] theorem names_requestOutput (hal : Hal) (r : Request) :
    names (requestOutput hal r) = [] := by
  by_cases h : hal r = SYS_OK <;> simp [requestOutput, Output.name, h]

def Answer.names : Answer → List String
  | .list names => names
  | .reply _ | .state _ | .void => []

/-- The names in the signals of a step and in its answer. -/
def Response.names (r : Response) : List String :=
  SailfishFpd.names r.out ++ r.answer.toList.flatMap Answer.names

namespace FPDCommunity

def signalNames (d : FPDCommunity) : Signal → List String
  | .succeeded _ => [d.m_addingFinger]
  | .removed finger =>
    if finger = 0 then FingerMap.values d.m_fingerMap else [(d.m_fingerMap[finger]?).getD ""]
  | .authenticated finger => [d.identifiedName finger]
  | .failed _ | .enrollProgress _ | .acquired _ | .enumerated => []

section Handlers

variable {x : Exec} {env : Env} {caller : String}

theorem names_invoke (c : Call) : names (invoke env caller c x).1.out = names x.out := by
  cases h : x.self.requestOf caller c with
  | some r =>
    rw [invoke_request h]
    by_cases he : c.enrols <;> simp [he, Output.name]
  | none =>
    by_cases ha : c = .Abort ∧ ¬ x.self.busyForOther caller ∧ x.self.m_state ≠ .FPSTATE_IDLE
    · obtain ⟨rfl, hb, hs⟩ := ha
      simp [invoke_abort hb hs, abort, Output.name]
    · rw [invoke_idle h (by tauto)]

theorem names_slot [QDataStream] (signal : Signal) :
    names (slot env signal x).out = names x.out ++ x.self.signalNames signal := by
  cases signal with
  | failed message =>
    by_cases ht : x.self.tolerates message
    · simp [slot, slot_failed_tolerated ht, signalNames, Output.name]
    · simp [slot, slot_failed_ends ht, signalNames, Output.name]
  | succeeded finger => simp [slot, slot_succeeded, signalNames, Output.name]
  | removed finger =>
    by_cases h : finger = 0 <;>
      simp [slot, slot_removed, foldl_removed, signalNames, h, Output.name]
  | authenticated finger => simp [slot, slot_authenticated_out, signalNames, Output.name]
  | enrollProgress pc =>
    by_cases hv : x.self.m_state = .FPSTATE_VERIFYING <;>
      simp [slot, slot_enrollProgress, hv, abort, signalNames, Output.name]
  | acquired info =>
    by_cases h : acquiredState info = x.self.m_acquired <;>
      simp [slot, slot_acquired_out, h, signalNames, Output.name]
  | enumerated => simp [slot, slot_enumerated, signalNames, Output.name]

end Handlers

end FPDCommunity

/-! ## The daemon, started again and again -/

/-- What a daemon is started with. -/
structure Startup where
  env : Env
  getprop : String → String

/-- The daemon with restarts, on the file that the last one left. -/
def service [QDataStream] : Reactive.Machine System (Life Input Startup) Response :=
  daemon.restarting fun s r =>
    (boot r.env r.getprop s.fpd.database,
      { out := (construct r.env r.getprop s.fpd.database).out })

abbrev ServiceEdge := Reactive.Edge System (Life Input Startup) Response

/-- What a file holds. -/
def recorded [QDataStream] (database : Option (List UInt8)) : FingerMap :=
  match database with
  | some bytes => QDataStream.read bytes
  | none => ∅

/-- The finger whose enrolment the step told a client it has started. -/
def enrolStarted (e : ServiceEdge) : Option String :=
  match e.inLife.bind accepted with
  | some (_, .Enroll finger) => some finger
  | _ => none

/-- Where a name can come from, given the first file and the steps so far. -/
inductive Source [QDataStream] (database : Option (List UInt8)) (past : List ServiceEdge) :
    String → Prop where
  | client {e : ServiceEdge} {name : String} (he : e ∈ past) (hname : enrolStarted e = some name) :
    Source database past name
  | file {k : UInt32} {name : String} (hk : (recorded database)[k]? = some name) :
    Source database past name
  | generated (k : UInt32) : Source database past (unknownName k)
  /-- The name of a finger that no enrolment was for, or that is not in the list. -/
  | empty : Source database past ""

theorem Source.mono [QDataStream] {database : Option (List UInt8)} {past past' : List ServiceEdge}
    {name : String} (h : Source database past name) (hpast : past ⊆ past') :
    Source database past' name := by
  cases h with
  | client he hname => exact .client (hpast he) hname
  | file hk => exact .file hk
  | generated k => exact .generated k
  | empty => exact .empty

/-- The signal that the step hands to its slot. -/
def delivered (e : ServiceEdge) : Option Signal :=
  match e.input with
  | .step ⟨.deliver, _⟩ => e.src.queue.head?
  | _ => none

theorem delivered_eq_some [QDataStream] {s : System} {i : Input} {signal : Signal} :
    delivered (service.edge s (.step i)) = some signal ↔
      i.event = .deliver ∧ ∃ queue, s.queue = signal :: queue := by
  obtain ⟨event, env⟩ := i
  cases event <;> simp [delivered, List.head?_eq_some_iff]

/-- Where the name of a finger can come from, given the first file and the steps so far. -/
inductive Origin [QDataStream] (database : Option (List UInt8)) (past : List ServiceEdge) :
    UInt32 → String → Prop where
  | added {e : ServiceEdge} {k : UInt32} {name : String} (he : e ∈ past)
    (hk : delivered e = some (.succeeded k)) (hname : .signal (.Added name) ∈ e.out.out) :
    Origin database past k name
  | file {k : UInt32} {name : String} (hk : (recorded database)[k]? = some name) :
    Origin database past k name
  | generated (k : UInt32) : Origin database past k (unknownName k)

theorem Origin.mono [QDataStream] {database : Option (List UInt8)} {past past' : List ServiceEdge}
    {k : UInt32} {name : String} (h : Origin database past k name) (hpast : past ⊆ past') :
    Origin database past' k name := by
  cases h with
  | added he hk hname => exact .added (hpast he) hk hname
  | file hk => exact .file hk
  | generated k => exact .generated k

/-- Every entry of the list and of the file is one of `origin`. -/
structure Entries [QDataStream] (origin : UInt32 → String → Prop) (d : FPDCommunity) : Prop where
  map : ∀ (k : UInt32) (name : String), d.m_fingerMap[k]? = some name → origin k name
  file : ∀ (k : UInt32) (name : String), (recorded d.database)[k]? = some name → origin k name

/-- Every name the daemon and its file hold is one of `source`. -/
structure Traced [QDataStream] (source : String → Prop) (d : FPDCommunity) : Prop extends
    Entries (fun _ => source) d where
  adding : source d.m_addingFinger

section Steps

variable [QDataStream] {source : String → Prop} {origin origin' : UInt32 → String → Prop}
  {d : FPDCommunity} {env : Env}

theorem Entries.mono (h : Entries origin d) (hs : ∀ k name, origin k name → origin' k name) :
    Entries origin' d :=
  ⟨fun k name hk => hs k name (h.map k name hk), fun k name hk => hs k name (h.file k name hk)⟩

theorem Traced.mono {source' : String → Prop} (h : Traced source d)
    (hs : ∀ name, source name → source' name) : Traced source' d :=
  ⟨h.toEntries.mono fun _ => hs, hs _ h.adding⟩

/-- A file operation leaves names of the file or of the map. -/
theorem recorded_saved [LawfulQDataStream] [CutQDataStream] {k : UInt32} {name : String}
    (h : (recorded (d.saved env))[k]? = some name) :
    (recorded d.database)[k]? = some name ∨ d.m_fingerMap[k]? = some name := by
  unfold saved at h
  by_cases ho : env.openWrite
  · rw [if_pos ho] at h
    cases hr : env.room with
    | none => exact .inr (by simpa [recorded, hr] using h)
    | some n =>
      have hread :
          (QDataStream.read ((QDataStream.write d.m_fingerMap).take n))[k]? = some name := by
        simpa [recorded, hr] using h
      by_cases hn : n < (QDataStream.write d.m_fingerMap).length
      · rw [CutQDataStream.read_take d.m_fingerMap hn] at hread
        simp at hread
      · rw [List.take_of_length_le (by omega), LawfulQDataStream.read_write] at hread
        exact .inr hread
  · exact .inl (by rwa [if_neg ho] at h)

theorem readDatabase_getElem? {k : UInt32} {name : String}
    (h : (d.readDatabase env)[k]? = some name) : (recorded d.database)[k]? = some name := by
  unfold readDatabase at h
  unfold recorded
  split at h
  · next hd hopen => rwa [hd]
  · simp at h

omit [QDataStream] in
theorem origin_getD (hgen : ∀ k, origin k (unknownName k)) {o : Option String} {k : UInt32}
    (h : ∀ name, o = some name → origin k name) : origin k (o.getD (unknownName k)) := by
  cases o with
  | none => exact hgen k
  | some name => exact h name rfl

theorem entries_edit (hgen : ∀ k, origin k (unknownName k)) (h : Entries origin d)
    {signal : Signal} (hadd : ∀ finger, signal = .succeeded finger → origin finger d.m_addingFinger)
    {k : UInt32} {name : String}
    (hk : ((d.signalEdit env signal).apply d.m_fingerMap)[k]? = some name) : origin k name := by
  cases signal with
  | succeeded finger =>
    by_cases hf : finger = k
    · obtain rfl : d.m_addingFinger = name := by simpa [signalEdit, Edit.apply, hf] using hk
      exact hf ▸ hadd finger rfl
    · exact h.map k name (by simpa [signalEdit, Edit.apply, Std.ExtTreeMap.getElem?_insert, hf]
        using hk)
  | removed finger =>
    by_cases hf : finger = 0
    · simp [signalEdit, Edit.apply, hf] at hk
    · have hk' : finger ≠ k ∧ d.m_fingerMap[k]? = some name := by
        simpa [signalEdit, Edit.apply, hf, Std.ExtTreeMap.getElem?_erase] using hk
      exact h.map k name hk'.2
  | enumerated =>
    rw [signalEdit, Edit.apply, getElem?_reconcile] at hk
    obtain ⟨-, rfl⟩ : k ∈ d.m_androidFP.fingerprints ∧
        ((d.readDatabase env)[k]?).getD (unknownName k) = name := by simpa using hk
    exact origin_getD hgen fun name hname => h.file k name (readDatabase_getElem? hname)
  | failed | authenticated | enrollProgress | acquired => exact h.map k name hk

variable {s : System} {i : Input}

theorem system_edit (s : System) (i : Input) :
    s.edit i = .keep ∨ ∃ signal queue, i.event = .deliver ∧ s.queue = signal :: queue ∧
      s.edit i = s.fpd.signalEdit i.env signal := by
  unfold System.edit
  split
  · next hi hq => exact .inr ⟨_, _, hi, hq, rfl⟩
  · exact .inl rfl

theorem entries_step [LawfulQDataStream] [CutQDataStream] (hgen : ∀ k, origin k (unknownName k))
    (h : Entries origin s.fpd)
    (hadd : ∀ finger queue, i.event = .deliver → s.queue = .succeeded finger :: queue →
      origin finger s.fpd.m_addingFinger) : Entries origin (daemon.step s i).1.fpd := by
  obtain ⟨hmap, hdatabase, -⟩ := step_edits s i
  have hedit : ∀ (k : UInt32) (name : String),
      ((s.edit i).apply s.fpd.m_fingerMap)[k]? = some name → origin k name := by
    intro k name hk
    rcases system_edit s i with he | ⟨signal, queue, hi, hq, he⟩
    · rw [he] at hk
      exact h.map k name hk
    · rw [he] at hk
      exact entries_edit hgen h (fun finger hs => hadd finger queue hi (hs ▸ hq)) hk
  refine ⟨fun k name hk => hedit k name (hmap ▸ hk), fun k name hk => ?_⟩
  rw [hdatabase] at hk
  unfold databaseAfter at hk
  split at hk
  · exact h.file k name hk
  · rcases recorded_saved hk with hk | hk
    · exact h.file k name hk
    · exact hedit k name hk

theorem entries_boot (env : Env) (getprop : String → String) {database : Option (List UInt8)}
    (hfile : ∀ (k : UInt32) (name : String), (recorded database)[k]? = some name → origin k name) :
    Entries origin (boot env getprop database).fpd := by
  rw [boot_fpd]
  exact ⟨by simp, hfile⟩

/-- The names that need no client. -/
structure Admits (source : String → Prop) : Prop where
  generated : ∀ k, source (unknownName k)
  empty : source ""

theorem traced_signalNames (ha : Admits source) (h : Traced source d) (signal : Signal) :
    ∀ name ∈ d.signalNames signal, source name := by
  cases signal with
  | succeeded finger => simpa [signalNames] using h.adding
  | removed finger =>
    by_cases hf : finger = 0
    · intro name hname
      obtain ⟨k, hk⟩ := FingerMap.mem_values.mp (by simpa [signalNames, hf] using hname)
      exact h.map k name hk
    · cases hm : d.m_fingerMap[finger]? with
      | none => simpa [signalNames, hf, hm] using ha.empty
      | some name => simpa [signalNames, hf, hm] using h.map finger name hm
  | authenticated finger =>
    have hname : source (d.identifiedName finger) :=
      origin_getD ha.generated fun name hm => h.map finger name hm
    simpa [signalNames] using hname
  | failed | enrollProgress | acquired | enumerated => simp [signalNames]

theorem traced_step [LawfulQDataStream] [CutQDataStream] (ha : Admits source)
    (h : Traced source s.fpd)
    (hclient : ∀ caller finger, accepted (daemon.edge s i) = some (caller, .Enroll finger) →
      source finger) : Traced source (daemon.step s i).1.fpd := by
  refine ⟨entries_step ha.generated h.toEntries fun _ _ _ _ => h.adding, ?_⟩
  have hadding : (daemon.step s i).1.fpd.m_addingFinger =
      (s.fpd.control.apply (s.move i)).adding := congrArg Control.adding (step_makes s i).1
  rw [hadding]
  rw [accepted_edge] at hclient
  cases hm : s.move i with
  | stay => exact h.adding
  | start caller c | bounce caller c =>
    cases c with
    | Enroll finger => exact hclient caller finger (by rw [hm]; rfl)
    | _ => exact h.adding
  | finish e =>
    by_cases he : e = .succeeded
    · simpa [Control.apply, he] using ha.empty
    · simpa [Control.apply, he] using h.adding

theorem traced_names (ha : Admits source) (h : Traced source s.fpd) :
    ∀ name ∈ (daemon.step s i).2.names, source name := by
  obtain ⟨event, env⟩ := i
  cases event with
  | call caller c =>
    intro name hname
    rw [step_call, Response.names, names_invoke, names_nil, List.nil_append] at hname
    cases c with
    | GetAll =>
      obtain ⟨k, hk⟩ := FingerMap.mem_values.mp
        (by simpa [invoke, GetAll, Answer.names] using hname)
      exact h.map k name hk
    | _ => simp [invoke, Answer.names] at hname
  | timeout =>
    by_cases ht : s.fpd.m_cancelTimer <;>
      simp [daemon, System.step, ht, Response.names, slot_cancelIdentify, Output.name]
  | callback cb => simp [daemon, System.step, Response.names]
  | deliver =>
    obtain ⟨d, queue⟩ := s
    cases queue with
    | nil => simp [daemon, System.step, Response.names]
    | cons signal queue =>
      have hnames : (daemon.step ⟨d, signal :: queue⟩ ⟨.deliver, env⟩).2.names =
          d.signalNames signal := by
        simp [daemon, System.step, Response.names, names_slot]
      rw [hnames]
      exact traced_signalNames ha h signal

omit [QDataStream] in
theorem names_construct (env : Env) (getprop : String → String) (database : Option (List UInt8)) :
    names (construct env getprop database).out = [] := by
  have hgroup : ∀ path, ∃ out, names out = [] ∧
      androidFP (AndroidFP.setGroup env.hal 0 path) { self := { database } } =
        { self := { database }, out } := by
    intro path
    rw [androidFP_idle _ rfl]
    by_cases hp : path = ""
    · exact ⟨[.signal (.ErrorInfo "Cannot set empty active group path")], rfl,
        by simp [AndroidFP.setGroup, hp]⟩
    · refine ⟨_, ?_, by simp [AndroidFP.setGroup, hp]; rfl⟩
      rw [names_cons, names, filterMap_map_none fun _ => rfl]
      rfl
  obtain ⟨out, hout, hgroup⟩ := hgroup (AndroidFP.getDefaultGroupPath getprop 100000)
  simp only [construct, setUser, enumerate, hgroup, if_true]
  rw [androidFP_request (f := AndroidFP.enumerate env.hal) (fun _ => rfl) (by simp)]
  simp [hout]

theorem traced_boot (ha : Admits source) (env : Env) (getprop : String → String)
    {database : Option (List UInt8)}
    (hfile : ∀ (k : UInt32) (name : String), (recorded database)[k]? = some name → source name) :
    Traced source (boot env getprop database).fpd := by
  refine ⟨entries_boot env getprop hfile, ?_⟩
  rw [boot_fpd]
  exact ha.empty

end Steps

section Runs

variable [QDataStream] {database : Option (List UInt8)} {past : List ServiceEdge} {s : System}

theorem Source.admits : Admits (Source database past) := ⟨.generated, .empty⟩

theorem Source.step {e : ServiceEdge} {name : String} (h : Source database past name) :
    Source database (past ++ [e]) name := h.mono (List.subset_append_left past [e])

theorem traced_service [LawfulQDataStream] [CutQDataStream]
    (h : Traced (Source database past) s.fpd) (i : Life Input Startup) :
    Traced (Source database (past ++ [service.edge s i])) (service.step s i).1.fpd := by
  have h' : Traced (Source database (past ++ [service.edge s i])) s.fpd :=
    h.mono fun _ => .step
  cases i with
  | step i =>
    refine traced_step Source.admits h' fun caller finger hstart => ?_
    refine .client (e := service.edge s (.step i)) (by simp) ?_
    have hin : (service.edge s (.step i)).inLife = some (daemon.edge s i) := rfl
    simp [enrolStarted, hin, hstart]
  | restart r => exact traced_boot Source.admits r.env r.getprop h'.file

/-- **Every name has a source**, whatever the file operations do and however often the daemon is
started again: the names in the list and in the file, and every name a client is told. -/
theorem names_have_source [LawfulQDataStream] [CutQDataStream] (env : Env)
    (getprop : String → String) (database : Option (List UInt8)) (is : List (Life Input Startup)) :
    (service.Visits (boot env getprop database) is fun past s =>
      ∀ (k : UInt32) (name : String),
        s.fpd.m_fingerMap[k]? = some name ∨ (recorded s.fpd.database)[k]? = some name →
          Source database past name) ∧
      service.Along (boot env getprop database) is fun past e =>
        ∀ name ∈ e.out.names, Source database past name := by
  have htraced : service.Visits (boot env getprop database) is fun past s =>
      Traced (Source database past) s.fpd := by
    refine Reactive.Machine.Along.visits (I := fun past s => Traced (Source database past) s.fpd)
      ?_ (fun _ _ i h _ => traced_service h i) Reactive.Machine.along_true
    exact traced_boot Source.admits env getprop fun _ _ => .file
  refine ⟨htraced.mono fun past s h k name hk => ?_, ?_⟩
  · exact hk.elim (h.map k name) (h.file k name)
  · refine Reactive.Machine.along_true.of_visits htraced fun past s i h _ => ?_
    cases i with
    | step i => exact traced_names Source.admits h
    | restart r =>
      intro name hname
      have hnone : names (construct r.env r.getprop s.fpd.database).out = [] := names_construct ..
      simp [service, Reactive.Machine.restarting, Response.names, hnone] at hname

/-- A success that is handled is announced under the name it adds. -/
theorem added_announced {finger : UInt32} {queue : List Signal} {i : Input}
    (hi : i.event = .deliver) (hq : s.queue = .succeeded finger :: queue) :
    .signal (.Added s.fpd.m_addingFinger) ∈ (daemon.step s i).2.out := by
  obtain ⟨event, env⟩ := i
  obtain ⟨d, q⟩ := s
  subst hi hq
  simp [daemon, System.step, slot, slot_succeeded]

/-- The name that a touch is answered with is the one of its finger. -/
theorem eq_identifiedName {finger : UInt32} {queue : List Signal} {i : Input} {name : String}
    (hi : i.event = .deliver) (hq : s.queue = .authenticated finger :: queue)
    (hname : .signal (.Identified name) ∈ (daemon.step s i).2.out) :
    name = s.fpd.identifiedName finger := by
  obtain ⟨event, env⟩ := i
  obtain ⟨d, q⟩ := s
  subst hi hq
  have hout : name ∈ names (slot env (.authenticated finger) { self := d }).out :=
    List.mem_filterMap.mpr ⟨_, hname, rfl⟩
  simpa [names_slot, signalNames] using hout

theorem entries_service [LawfulQDataStream] [CutQDataStream]
    (h : Entries (Origin database past) s.fpd) (i : Life Input Startup) :
    Entries (Origin database (past ++ [service.edge s i])) (service.step s i).1.fpd := by
  have h' : Entries (Origin database (past ++ [service.edge s i])) s.fpd :=
    h.mono fun _ _ ho => ho.mono (List.subset_append_left past _)
  cases i with
  | step i =>
    refine entries_step .generated h' fun finger queue hi hq => ?_
    refine .added (e := service.edge s (.step i)) (by simp) ?_ (added_announced hi hq)
    exact delivered_eq_some.mpr ⟨hi, queue, hq⟩
  | restart r => exact entries_boot r.env r.getprop h'.file

/-- **A finger keeps its names**, whatever the HAL reports, whatever the file operations do and
however often the daemon is started again: what the list and the file have for a finger, and what a
touch of it is answered with, was announced for this finger, is what the first file has for it, or
is generated from its id. -/
theorem names_stay_with_finger [LawfulQDataStream] [CutQDataStream] (env : Env)
    (getprop : String → String) (database : Option (List UInt8)) (is : List (Life Input Startup)) :
    (service.Visits (boot env getprop database) is fun past s =>
      ∀ (k : UInt32) (name : String),
        s.fpd.m_fingerMap[k]? = some name ∨ (recorded s.fpd.database)[k]? = some name →
          Origin database past k name) ∧
      service.Along (boot env getprop database) is fun past e =>
        ∀ (k : UInt32) (name : String), delivered e = some (.authenticated k) →
          .signal (.Identified name) ∈ e.out.out → Origin database past k name := by
  have hentries : service.Visits (boot env getprop database) is fun past s =>
      Entries (Origin database past) s.fpd := by
    refine Reactive.Machine.Along.visits (I := fun past s => Entries (Origin database past) s.fpd)
      ?_ (fun _ _ i h _ => entries_service h i) Reactive.Machine.along_true
    exact entries_boot env getprop fun _ _ => .file
  refine ⟨hentries.mono fun past s h k name hk => ?_, ?_⟩
  · exact hk.elim (h.map k name) (h.file k name)
  · refine Reactive.Machine.along_true.of_visits hentries fun past s i h _ k name hk hname => ?_
    cases i with
    | restart r => simp [delivered] at hk
    | step i =>
      obtain ⟨hi, queue, hq⟩ : i.event = .deliver ∧ ∃ queue, s.queue = .authenticated k :: queue :=
        delivered_eq_some.mp hk
      obtain rfl := eq_identifiedName hi hq hname
      exact origin_getD .generated fun name hm => h.map k name hm

end Runs

section Cut

/-- `:1.5` enrols "left" and "right", the second save is cut short, and the daemon is restarted. -/
def cutInputs : List (Life Input Startup) :=
  [.step ⟨.callback (.enumerate 0 0), .answering SYS_OK⟩, .step ⟨.deliver, .answering SYS_OK⟩,
    .step ⟨.call ":1.5" (.Enroll "left"), .answering SYS_OK⟩,
    .step ⟨.callback (.enrollresult 7 0), .answering SYS_OK⟩,
    .step ⟨.deliver, .answering SYS_OK⟩, .step ⟨.deliver, .answering SYS_OK⟩,
    .step ⟨.call ":1.5" (.Enroll "right"), .answering SYS_OK⟩,
    .step ⟨.callback (.enrollresult 8 0), .answering SYS_OK⟩,
    .step ⟨.deliver, .answering SYS_OK⟩,
    .step ⟨.deliver, { Env.answering SYS_OK with room := some 9 }⟩,
    .restart ⟨.answering SYS_OK, fun _ => ""⟩,
    .step ⟨.callback (.enumerate 7 1), .answering SYS_OK⟩,
    .step ⟨.callback (.enumerate 8 0), .answering SYS_OK⟩,
    .step ⟨.deliver, .answering SYS_OK⟩, .step ⟨.callback (.authenticated 8), .answering SYS_OK⟩]

theorem names_have_source_cut :
    letI := qt56
    let s := boot (.answering SYS_OK) (fun _ => "") none
    let i : Life Input Startup := .step ⟨.deliver, .answering SYS_OK⟩
    (service.step (service.final s cutInputs) i).2.names = ["Unknown 8"] ∧
      Source none (service.edges s cutInputs) "Unknown 8" := by
  let := qt56
  intro s i
  have h := (@names_have_source qt56 qt56_lawful qt56_cut (.answering SYS_OK) (fun _ => "") none
    (cutInputs ++ [i])).2 cutInputs i [] rfl "Unknown 8"
  exact ⟨by decide +kernel, h (by decide +kernel)⟩

/-- The cut left no name, and finger 8 is told under its id. -/
theorem names_stay_with_finger_cut :
    letI := qt56
    let s := boot (.answering SYS_OK) (fun _ => "") none
    let i : Life Input Startup := .step ⟨.deliver, .answering SYS_OK⟩
    let e := service.edge (service.final s cutInputs) i
    .signal (.Identified "Unknown 8") ∈ e.out.out ∧
      Origin none (service.edges s cutInputs) 8 "Unknown 8" := by
  let := qt56
  intro s i e
  have h := (@names_stay_with_finger qt56 qt56_lawful qt56_cut (.answering SYS_OK) (fun _ => "")
    none (cutInputs ++ [i])).2 cutInputs i [] rfl 8 "Unknown 8"
  exact ⟨by decide +kernel, h (by decide +kernel) (by decide +kernel)⟩

end Cut

end SailfishFpd

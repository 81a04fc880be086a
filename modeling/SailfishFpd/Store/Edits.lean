import SailfishFpd.Session.Calls

/-!
# What a step does to the finger list

Only the slots of `succeeded`, `removed` and `enumerated` touch `m_fingerMap`
and the database. Each makes one `Edit` of the map, saves it, and tells the
clients the names added and removed. `System.edit` reads the edit off the state
and the input; `step_edits` says that every step of the daemon makes its edit.
-/

namespace SailfishFpd

inductive Edit where
  | keep
  | add (finger : UInt32) (name : String)
  | drop (finger : UInt32)
  | wipe
  | load (m : FingerMap)

/-- What the clients are told about the finger list. -/
inductive Change where
  | added (name : String)
  | removed (name : String)
  | listed
  deriving DecidableEq

def Output.change : Output → Option Change
  | .signal (.Added name) => some (.added name)
  | .signal (.Removed name) => some (.removed name)
  | .signal .ListChanged => some .listed
  | _ => none

def changes (out : List Output) : List Change := out.filterMap Output.change

@[simp] theorem changes_nil : changes [] = [] := rfl

@[simp] theorem changes_cons (o : Output) (out : List Output) :
    changes (o :: out) = o.change.toList ++ changes out :=
  filterMap_output_cons Output.change o out

@[simp] theorem changes_append (a b : List Output) : changes (a ++ b) = changes a ++ changes b :=
  List.filterMap_append

@[simp] theorem changes_stateChange (old new : State) :
    changes (FPDCommunity.stateChange old new) = [] :=
  filterMap_stateChange (fun _ => rfl) old new

@[simp] theorem changes_map_request (rs : List (Request × Int)) :
    changes (rs.map fun p => .request p.1 p.2) = [] :=
  filterMap_map_none (fun _ => rfl) rs

@[simp] theorem changes_map_removed (names : List String) :
    changes (names.map fun f => .signal (.Removed f)) = names.map .removed := by
  induction names with
  | nil => rfl
  | cons f names ih => simpa [Output.change] using ih

@[simp] theorem changes_requestOutput (hal : Hal) (r : Request) :
    changes (FPDCommunity.requestOutput hal r) = [] := by
  by_cases h : hal r = SYS_OK <;> simp [FPDCommunity.requestOutput, Output.change, h]

theorem mem_changes_added {out : List Output} {name : String} :
    .added name ∈ changes out ↔ .signal (.Added name) ∈ out := by
  refine List.mem_filterMap.trans ⟨fun ⟨o, ho, h⟩ => ?_, fun h => ⟨_, h, rfl⟩⟩
  unfold Output.change at h
  split at h <;> simp_all

namespace Edit

def apply (m : FingerMap) : Edit → FingerMap
  | .keep => m
  | .add finger name => m.insert finger name
  | .drop finger => m.erase finger
  | .wipe => ∅
  | .load m' => m'

def changes (m : FingerMap) : Edit → List Change
  | .keep => []
  | .add _ name => [.added name, .listed]
  | .drop finger => [.removed ((m[finger]?).getD ""), .listed]
  | .wipe => (FingerMap.values m).map .removed ++ [.listed]
  | .load _ => [.listed]

end Edit

theorem Edit.mem_changes_added {e : Edit} {m : FingerMap} {name : String} :
    .added name ∈ e.changes m ↔ ∃ finger, e = .add finger name := by
  cases e <;> simp [Edit.changes, eq_comm]

namespace FPDCommunity

variable [QDataStream]

def databaseAfter (env : Env) (d : FPDCommunity) : Edit → Option (List UInt8)
  | .keep => d.database
  | e => saved env { d with m_fingerMap := e.apply d.m_fingerMap }

def signalEdit (env : Env) (d : FPDCommunity) : Signal → Edit
  | .succeeded finger => .add finger d.m_addingFinger
  | .removed finger => if finger = 0 then .wipe else .drop finger
  | .enumerated => .load (reconcile d.m_androidFP.fingerprints (d.readDatabase env))
  | .failed _ | .authenticated _ | .enrollProgress _ | .acquired _ => .keep

/-- `y` is what a handler that makes the edit `e` leaves of `x`. -/
structure Edits (env : Env) (e : Edit) (x y : Exec) : Prop where
  map : y.self.m_fingerMap = e.apply x.self.m_fingerMap
  database : y.self.database = x.self.databaseAfter env e
  changes : changes y.out = changes x.out ++ e.changes x.self.m_fingerMap

theorem Edits.keep {env : Env} {x y : Exec} (hm : y.self.m_fingerMap = x.self.m_fingerMap)
    (hd : y.self.database = x.self.database)
    (hc : SailfishFpd.changes y.out = SailfishFpd.changes x.out) : Edits env .keep x y :=
  ⟨hm, hd, by simp [hc, Edit.changes]⟩

variable {x : Exec} {env : Env} {caller : String}

omit [QDataStream] in
theorem prepared_store (d : FPDCommunity) (c : Call) :
    (d.prepared c).m_fingerMap = d.m_fingerMap ∧ (d.prepared c).database = d.database := by
  cases c <;> exact ⟨rfl, rfl⟩

omit [QDataStream] in
theorem afterRequest_store (d : FPDCommunity) (caller : String) (c : Call) (accepted : Bool) :
    (d.afterRequest caller c accepted).m_fingerMap = d.m_fingerMap ∧
      (d.afterRequest caller c accepted).database = d.database := by
  cases accepted <;> exact d.prepared_store c

theorem edits_invoke (c : Call) : Edits env .keep x (invoke env caller c x).1 := by
  cases h : x.self.requestOf caller c with
  | some r =>
    obtain ⟨hm, hd⟩ := x.self.afterRequest_store caller c (env.hal r = SYS_OK)
    rw [invoke_request h]
    refine .keep hm hd ?_
    by_cases he : c.enrols <;> simp [he, Output.change]
  | none =>
    by_cases ha : c = .Abort ∧ ¬ x.self.busyForOther caller ∧ x.self.m_state ≠ .FPSTATE_IDLE
    · obtain ⟨rfl, hb, hs⟩ := ha
      rw [invoke_abort hb hs]
      refine .keep ?_ ?_ ?_
      · simp
      · simp
      · simp [abort, Output.change]
    · rw [invoke_idle h (by tauto)]
      exact .keep rfl rfl rfl

theorem edits_slot (signal : Signal) :
    Edits env (x.self.signalEdit env signal) x (slot env signal x) := by
  cases signal with
  | failed message =>
    by_cases ht : x.self.tolerates message
    · simp only [slot, slot_failed_tolerated ht, signalEdit]
      exact .keep rfl rfl (by simp [Output.change])
    · simp only [slot, slot_failed_ends ht, signalEdit]
      exact .keep rfl rfl (by simp [Output.change])
  | succeeded finger =>
    refine ⟨?_, ?_, ?_⟩
    · simp [slot, signalEdit, Edit.apply]
    · simp [slot, signalEdit, databaseAfter, Edit.apply]
    · simp [slot, signalEdit, slot_succeeded, Edit.changes, Output.change]
  | removed finger =>
    by_cases h : finger = 0
    · refine ⟨?_, ?_, ?_⟩
      · simp [slot, signalEdit, h, Edit.apply]
      · simp [slot, signalEdit, h, databaseAfter, Edit.apply]
      · simp [slot, signalEdit, h, slot_removed, foldl_removed, Edit.changes, Output.change]
    · refine ⟨?_, ?_, ?_⟩
      · simp [slot, signalEdit, h, Edit.apply]
      · simp [slot, signalEdit, h, databaseAfter, Edit.apply]
      · simp [slot, signalEdit, h, slot_removed, Edit.changes, Output.change]
  | authenticated finger =>
    refine .keep ?_ ?_ ?_
    · simp [slot]
    · simp [slot]
    · simp [slot, slot_authenticated_out, Output.change]
  | enrollProgress pc =>
    by_cases hv : x.self.m_state = .FPSTATE_VERIFYING
    · refine .keep ?_ ?_ ?_
      · simp [slot, hv]
      · simp [slot, hv]
      · simp [slot, slot_enrollProgress, hv, abort, Output.change]
    · refine .keep ?_ ?_ ?_
      · simp [slot, hv]
      · simp [slot, hv]
      · simp [slot, slot_enrollProgress, hv, Output.change]
  | acquired info =>
    refine .keep ?_ ?_ ?_
    · simp [slot]
    · simp [slot]
    · by_cases h : acquiredState info = x.self.m_acquired <;>
        simp [slot, slot_acquired_out, h, Output.change]
  | enumerated =>
    refine ⟨?_, ?_, ?_⟩
    · simp [slot, signalEdit, Edit.apply]
    · simp [slot, signalEdit, databaseAfter, Edit.apply]
    · simp [slot, signalEdit, slot_enumerated, Edit.changes, Output.change]

end FPDCommunity

open FPDCommunity

variable [QDataStream]

def System.edit (s : System) (i : Input) : Edit :=
  match i.event, s.queue with
  | .deliver, signal :: _ => s.fpd.signalEdit i.env signal
  | _, _ => .keep

/-- Every step makes its edit of the map, saves it, and tells the clients. -/
theorem step_edits (s : System) (i : Input) :
    (daemon.step s i).1.fpd.m_fingerMap = (s.edit i).apply s.fpd.m_fingerMap ∧
      (daemon.step s i).1.fpd.database = s.fpd.databaseAfter i.env (s.edit i) ∧
      changes (daemon.step s i).2.out = (s.edit i).changes s.fpd.m_fingerMap := by
  obtain ⟨event, env⟩ := i
  cases event with
  | call caller c =>
    have h : Edits env .keep { self := s.fpd } (invoke env caller c _).1 := edits_invoke c
    exact ⟨h.map, h.database, h.changes⟩
  | timeout =>
    by_cases ht : s.fpd.m_cancelTimer
    · refine ⟨?_, ?_, ?_⟩
      · simp [daemon, System.step, System.edit, ht, Edit.apply]
      · simp [daemon, System.step, System.edit, ht, databaseAfter]
      · simp [daemon, System.step, System.edit, ht, slot_cancelIdentify, Edit.changes,
          Output.change]
    · refine ⟨?_, ?_, ?_⟩ <;> simp [daemon, System.step, System.edit, ht, Edit.apply,
        databaseAfter, Edit.changes]
  | callback cb => exact ⟨rfl, rfl, changes_map_request _⟩
  | deliver =>
    obtain ⟨d, queue⟩ := s
    cases queue with
    | nil => exact ⟨rfl, rfl, rfl⟩
    | cons signal queue =>
      have h : Edits env _ _ (slot env signal { self := d }) := edits_slot signal
      exact ⟨h.map, h.database, h.changes⟩

theorem System.edit_deliver {s : System} {i : Input} {signal : Signal} {queue : List Signal}
    (hd : i.event = .deliver) (hq : s.queue = signal :: queue) :
    s.edit i = s.fpd.signalEdit i.env signal := by
  simp [System.edit, hd, hq]

/-- The steps that may change the list run one of three slots. -/
theorem System.edit_cases (s : System) (i : Input) :
    s.edit i = .keep ∨
    (i.event = .deliver ∧ ∃ finger queue, s.queue = .succeeded finger :: queue) ∨
    (i.event = .deliver ∧ ∃ finger queue, s.queue = .removed finger :: queue) ∨
    (i.event = .deliver ∧ ∃ queue, s.queue = .enumerated :: queue) := by
  obtain ⟨event, env⟩ := i
  obtain ⟨d, queue⟩ := s
  cases event with
  | deliver =>
    cases queue with
    | nil => exact .inl rfl
    | cons signal queue =>
      cases signal with
      | succeeded finger => exact .inr (.inl ⟨rfl, finger, queue, rfl⟩)
      | removed finger => exact .inr (.inr (.inl ⟨rfl, finger, queue, rfl⟩))
      | enumerated => exact .inr (.inr (.inr ⟨rfl, queue, rfl⟩))
      | _ => exact .inl rfl
  | _ => exact .inl rfl

theorem System.edit_eq_add {s : System} {i : Input} {finger : UInt32} {name : String} :
    s.edit i = .add finger name ↔
      i.event = .deliver ∧ (∃ queue, s.queue = .succeeded finger :: queue) ∧
        s.fpd.m_addingFinger = name := by
  obtain ⟨event, env⟩ := i
  obtain ⟨d, queue⟩ := s
  cases event with
  | deliver =>
    cases queue with
    | nil => simp [System.edit]
    | cons signal queue =>
      cases signal with
      | removed f => by_cases hf : f = 0 <;> simp [System.edit, signalEdit, hf]
      | _ => simp [System.edit, signalEdit]
  | _ => simp [System.edit]

/-! ## The object between the daemon and the HAL -/

theorem FPDCommunity.slot_androidFP (env : Env) (signal : Signal) (x : Exec) :
    (slot env signal x).self.m_androidFP = x.self.m_androidFP := by
  cases signal with
  | failed message =>
    by_cases ht : x.self.tolerates message
    · rw [slot, slot_failed_tolerated ht]; rfl
    · rw [slot, slot_failed_ends ht]
  | enrollProgress pc => by_cases hv : x.self.m_state = .FPSTATE_VERIFYING <;> simp [slot, hv]
  | _ => simp [slot]

omit [QDataStream] in
theorem FPDCommunity.invoke_androidFP (env : Env) (caller : String) (c : Call) (x : Exec) :
    (invoke env caller c x).1.self.m_androidFP =
      if (x.self.requestOf caller c).isSome then (x.self.prepared c).m_androidFP
      else x.self.m_androidFP := by
  cases h : x.self.requestOf caller c with
  | some r =>
    rw [invoke_request h]
    by_cases hr : env.hal r = SYS_OK <;> simp [afterRequest, hr]
  | none =>
    by_cases ha : c = .Abort ∧ ¬ x.self.busyForOther caller ∧ x.self.m_state ≠ .FPSTATE_IDLE
    · obtain ⟨rfl, hb, hs⟩ := ha
      simp [invoke_abort hb hs]
    · rw [invoke_idle h (by tauto)]
      rfl

theorem step_androidFP (s : System) (i : Input) :
    (daemon.step s i).1.fpd.m_androidFP =
      match i.event with
      | .callback cb => (s.fpd.m_androidFP.callback i.env.hal cb).self
      | .call caller c =>
        if (s.fpd.requestOf caller c).isSome then (s.fpd.prepared c).m_androidFP
        else s.fpd.m_androidFP
      | .timeout | .deliver => s.fpd.m_androidFP := by
  obtain ⟨event, env⟩ := i
  cases event with
  | call caller c => exact invoke_androidFP env caller c { self := s.fpd }
  | timeout => by_cases ht : s.fpd.m_cancelTimer <;> simp [daemon, System.step, ht]
  | callback cb => rfl
  | deliver =>
    obtain ⟨d, queue⟩ := s
    cases queue with
    | nil => rfl
    | cons signal queue => exact slot_androidFP env signal { self := d }

end SailfishFpd

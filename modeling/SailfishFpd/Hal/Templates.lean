import Mathlib.Data.List.Nodup
import Mathlib.Data.List.Perm.Subperm
import SailfishFpd.Hal.Biometry

/-!
# A well-behaved HAL

A HAL that holds a set of templates and works on one request at a time: it
reports what it does as it does it, and sends nothing once an operation has
completed, ended with an error or been cancelled. The templates are distinct
and not `0`, so there are fewer of them than a `uint32_t` can count.
-/

namespace SailfishFpd

/-- What the HAL is working on. `enumerating` carries the templates still to report; a `clearing`
has begun once it has deleted a template. -/
inductive HalOp where
  | rest
  | enrolling
  | authenticating
  | removing (finger : UInt32)
  | clearing (begun : Bool)
  | enumerating (todo : List UInt32)
  deriving DecidableEq

structure TemplateHal where
  templates : List UInt32
  nodup : templates.Nodup
  nonzero : 0 ∉ templates
  op : HalOp := .rest

inductive HalEvent where
  | progress (finger remaining : UInt32)
  | enrolled (finger : UInt32)
  | removed (finger : UInt32)
  | enumerated (finger : UInt32)
  /-- The report of a `remove` of everything, or an enumeration, when there is no template. -/
  | none
  | authenticated (finger : UInt32) (last : Bool)
  | acquired (info : Int)
  | error (code vendorCode : Int)

/-- The `remaining` of a report. -/
def left (todo : List UInt32) : UInt32 := UInt32.ofNat todo.length

/-- The count of some of the ids, but not of all, does not wrap. -/
theorem left_eq_zero {todo : List UInt32} {other : UInt32} (hnodup : todo.Nodup)
    (hother : other ∉ todo) : left todo = 0 ↔ todo = [] := by
  have hlen : (other :: todo).length ≤ 2 ^ 32 := by
    have hsub : ((other :: todo).map UInt32.toNat).length ≤ (List.range (2 ^ 32)).length := by
      refine (List.subperm_of_subset ?_ ?_).length_le
      · exact List.Nodup.map (fun _ _ => UInt32.toNat_inj.mp) (List.nodup_cons.mpr ⟨hother, hnodup⟩)
      · intro n hn
        obtain ⟨k, -, rfl⟩ := List.mem_map.mp hn
        exact List.mem_range.mpr k.toNat_lt
    simpa using hsub
  have hlt : todo.length < 2 ^ 32 := by
    rw [List.length_cons] at hlen
    omega
  refine ⟨?_, ?_⟩
  · intro h
    have hn : (left todo).toNat = 0 := by rw [h]; rfl
    rw [left, UInt32.toNat_ofNat_of_lt' hlt] at hn
    exact List.length_eq_zero_iff.mp hn
  · rintro rfl
    rfl

namespace TemplateHal

def add (h : TemplateHal) (finger : UInt32) (hnew : finger ∉ h.templates) (hzero : finger ≠ 0) :
    TemplateHal where
  templates := finger :: h.templates
  nodup := List.nodup_cons.mpr ⟨hnew, h.nodup⟩
  nonzero := by simpa [hzero.symm] using h.nonzero

def delete (h : TemplateHal) (finger : UInt32) : TemplateHal where
  templates := h.templates.erase finger
  nodup := h.nodup.erase finger
  nonzero := fun hm => h.nonzero (List.mem_of_mem_erase hm)
  op := h.op

/-- The callback of an event that the HAL's operation allows, and the HAL after it. -/
def emit (h : TemplateHal) (ev : HalEvent) : Option (TemplateHal × Callback) :=
  match h.op, ev with
  | .enrolling, .progress finger remaining =>
    if remaining ≠ 0 then some (h, .enrollresult finger remaining) else none
  | .enrolling, .enrolled finger =>
    if hok : finger ∉ h.templates ∧ finger ≠ 0 then
      some (h.add finger hok.1 hok.2, .enrollresult finger 0)
    else none
  | .removing k, .removed finger =>
    if finger = k then some ({ h.delete finger with op := .rest }, .removed finger 0) else none
  | .clearing _, .removed finger =>
    if finger ∈ h.templates then
      let h' := h.delete finger
      some ({ h' with op := if h'.templates = [] then .rest else .clearing true },
        .removed finger (left h'.templates))
    else none
  | .clearing _, .none =>
    if h.templates = [] then some ({ h with op := .rest }, .removed 0 0) else none
  | .enumerating todo, .enumerated finger =>
    if finger ∈ todo then
      let todo := todo.erase finger
      some ({ h with op := if todo = [] then .rest else .enumerating todo },
        .enumerate finger (left todo))
    else none
  | .enumerating _, .none =>
    if h.templates = [] then some ({ h with op := .rest }, .enumerate 0 0) else none
  | .authenticating, .authenticated finger last =>
    if finger = 0 ∨ finger ∈ h.templates then
      some ({ h with op := if last then .rest else h.op }, .authenticated finger)
    else none
  | .rest, _ => none
  | _, .acquired info => some (h, .acquired info)
  | _, .error code vendorCode => some ({ h with op := .rest }, .error code vendorCode)
  | _, _ => none

/-- What the HAL may do next, by what it is working on. -/
inductive Emits (h : TemplateHal) : TemplateHal → Callback → Prop where
  | progress {finger remaining : UInt32} (hop : h.op = .enrolling) (hr : remaining ≠ 0) :
    Emits h h (.enrollresult finger remaining)
  | enrolled {finger : UInt32} (hop : h.op = .enrolling) (hnew : finger ∉ h.templates)
    (hz : finger ≠ 0) : Emits h (h.add finger hnew hz) (.enrollresult finger 0)
  | removed {finger : UInt32} (hop : h.op = .removing finger) :
    Emits h { h.delete finger with op := .rest } (.removed finger 0)
  | cleared {finger : UInt32} {begun : Bool} (hop : h.op = .clearing begun)
    (hm : finger ∈ h.templates) :
    Emits h { h.delete finger with
      op := if (h.delete finger).templates = [] then .rest else .clearing true }
      (.removed finger (left (h.delete finger).templates))
  | nothingToClear {begun : Bool} (hop : h.op = .clearing begun) (ht : h.templates = []) :
    Emits h { h with op := .rest } (.removed 0 0)
  | enumerated {finger : UInt32} {todo : List UInt32} (hop : h.op = .enumerating todo)
    (hm : finger ∈ todo) :
    Emits h { h with
      op := if todo.erase finger = [] then .rest else .enumerating (todo.erase finger) }
      (.enumerate finger (left (todo.erase finger)))
  | nothingToEnumerate {todo : List UInt32} (hop : h.op = .enumerating todo)
    (ht : h.templates = []) : Emits h { h with op := .rest } (.enumerate 0 0)
  | authenticated {finger : UInt32} {op : HalOp} (hop : h.op = .authenticating)
    (hop' : op = .rest ∨ op = .authenticating) :
    Emits h { h with op } (.authenticated finger)
  | acquired {info : Int} (hop : h.op ≠ .rest) : Emits h h (.acquired info)
  | error {code vendorCode : Int} (hop : h.op ≠ .rest) :
    Emits h { h with op := .rest } (.error code vendorCode)

theorem emits_of_emit {h hal : TemplateHal} {ev : HalEvent} {cb : Callback}
    (he : h.emit ev = some (hal, cb)) : h.Emits hal cb := by
  unfold emit at he
  split at he
  · split at he
    · cases he
      exact .progress ‹_› ‹_›
    · cases he
  · split at he
    · next hok =>
      cases he
      exact .enrolled ‹_› hok.1 hok.2
    · cases he
  · split at he
    · next hk =>
      cases he
      subst hk
      exact .removed ‹_›
    · cases he
  · split at he
    · cases he
      exact .cleared ‹_› ‹_›
    · cases he
  · split at he
    · cases he
      exact .nothingToClear ‹_› ‹_›
    · cases he
  · split at he
    · cases he
      exact .enumerated ‹_› ‹_›
    · cases he
  · split at he
    · cases he
      exact .nothingToEnumerate ‹_› ‹_›
    · cases he
  · next hop =>
    split at he
    · cases he
      refine .authenticated hop ?_
      split
      · exact .inl rfl
      · exact .inr hop
    · cases he
  · cases he
  · cases he
    exact .acquired ‹_›
  · cases he
    exact .error ‹_›
  · cases he

def operationOf (h : TemplateHal) : Request → Option HalOp
  | .enroll .. => some .enrolling
  | .authenticate .. => some .authenticating
  | .remove _ finger => some (if finger = 0 then .clearing false else .removing finger)
  | .enumerate => some (.enumerating h.templates)
  | .cancel | .postEnroll | .setActiveGroup .. => none

/-- The HAL takes a request. One that it refuses changes nothing, and a cancel ends what runs,
whatever the HAL answers it. -/
def request (h : TemplateHal) (p : Request × Int) : TemplateHal :=
  if p.1 = .cancel then { h with op := .rest }
  else match h.operationOf p.1 with
    | some op => if p.2 = SYS_OK then { h with op } else h
    | none => h

/-- Requests do not touch the templates. -/
@[simp] theorem request_templates (h : TemplateHal) (p : Request × Int) :
    (h.request p).templates = h.templates := by
  unfold request
  split
  · rfl
  · split
    · split <;> rfl
    · rfl

theorem request_cancel (h : TemplateHal) (status : Int) :
    h.request (.cancel, status) = { h with op := .rest } := if_pos rfl

theorem request_setActiveGroup (h : TemplateHal) (gid : UInt32) (path : String) (status : Int) :
    h.request (.setActiveGroup gid path, status) = h := rfl

theorem request_refused (h : TemplateHal) {r : Request} {status : Int} (hr : r ≠ .cancel)
    (hs : status ≠ SYS_OK) : h.request (r, status) = h := by
  unfold request
  rw [if_neg hr]
  split
  · rw [if_neg hs]
  · rfl

end TemplateHal

end SailfishFpd

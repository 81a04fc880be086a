import SailfishFpd.Lib.Machine

/-!
# The handle of the HAL

`u_hardware_biometry_new` registers its instance before it initialises it. When
all attempts fail it deletes the instance and returns what is registered, which
is still that instance: the first call of a process then returns a handle to a
deleted object, and the calls after it return none.
-/

namespace SailfishFpd

open Reactive.Machine (along_nil along_cons)

/-- What is done to instances. -/
inductive InstanceEvent where
  | created (self : Nat)
  | init (self : Nat) (ok : Bool)
  | deleted (self : Nat)
  /-- The HAL's `cancel`, by the destructor. -/
  | cancel
  deriving DecidableEq

/-- The library's globals: whether `fpHal` is set, the registered instance, and the number of
instances made, which names the next one. -/
structure HalLibrary where
  fpHal : Bool := false
  hybris_fp_instance : Option Nat := none
  made : Nat := 0
  deriving DecidableEq

/-- What a call of `u_hardware_biometry_new` did and returned. -/
structure NewHandle where
  events : List InstanceEvent
  handle : Option Nat
  deriving DecidableEq

namespace HalLibrary

/-- `init`, when `getService` finds the HAL or not. -/
def init (service : Bool) (lib : HalLibrary) : HalLibrary × Bool :=
  ({ lib with fpHal := service }, service)

/-- Where the attempts lead. -/
structure Tried where
  lib : HalLibrary
  events : List InstanceEvent
  ok : Bool

/-- The loop of attempts; a failed one is followed by a sleep. -/
def tryInit (self : Nat) : List Bool → HalLibrary → Tried
  | [], lib => { lib := lib, events := [], ok := false }
  | service :: services, lib =>
    let r := init service lib
    if r.2 then { lib := r.1, events := [.init self true], ok := true }
    else
      let t := tryInit self services r.1
      { t with events := .init self false :: t.events }

/-- A new instance is registered, and initialised in at most fifty attempts. -/
def attempts (services : Fin 50 → Bool) (lib : HalLibrary) : Tried :=
  tryInit lib.made (List.ofFn services)
    { lib with hybris_fp_instance := some lib.made, made := lib.made + 1 }

/-- `delete`: the destructor cancels what the HAL does. -/
def delete (self : Nat) (lib : HalLibrary) : List InstanceEvent :=
  (if lib.fpHal then [.cancel] else []) ++ [.deleted self]

def u_hardware_biometry_new (services : Fin 50 → Bool) (lib : HalLibrary) :
    HalLibrary × NewHandle :=
  match lib.hybris_fp_instance with
  | some _ => (lib, { events := [], handle := none })
  | none =>
    let self := lib.made
    let t := lib.attempts services
    if t.ok then
      ({ t.lib with hybris_fp_instance := some self },
        { events := .created self :: t.events, handle := some self })
    else
      (t.lib,
        { events := .created self :: t.events ++ delete self t.lib
          handle := t.lib.hybris_fp_instance })

end HalLibrary

/-- A process that calls `u_hardware_biometry_new`. -/
def halLibrary : Reactive.Machine HalLibrary (Fin 50 → Bool) NewHandle where
  step lib services := lib.u_hardware_biometry_new services

abbrev HandleEdge := Reactive.Edge HalLibrary (Fin 50 → Bool) NewHandle

/-! ## Live instances -/

/-- The instances alive after one more event. -/
def alive (l : List Nat) : InstanceEvent → List Nat
  | .created self => self :: l
  | .deleted self => l.filter (· ≠ self)
  | .init .. | .cancel => l

def live (events : List InstanceEvent) : List Nat := events.foldl alive []

def InstanceEvent.creates : InstanceEvent → Bool
  | .created _ => true
  | _ => false

theorem live_length_le (events : List InstanceEvent) :
    (live events).length ≤ events.countP (·.creates) := by
  induction events using List.reverseRecOn with
  | nil => exact Nat.le_refl 0
  | append_singleton events e ih =>
    rw [live, List.foldl_append, List.countP_append, List.foldl_cons, List.foldl_nil, ← live]
    cases e with
    | created self => simpa [alive, InstanceEvent.creates] using ih
    | deleted self => exact Nat.le_trans (List.length_filter_le _ _) ih
    | init self ok => exact ih
    | cancel => exact ih

theorem foldl_alive_init {self : Nat} {events : List InstanceEvent}
    (h : ∀ e ∈ events, ∃ ok, e = .init self ok) (l : List Nat) : events.foldl alive l = l := by
  induction events with
  | nil => rfl
  | cons e events ih =>
    obtain ⟨ok, rfl⟩ := h e List.mem_cons_self
    exact ih fun e he => h e (List.mem_cons_of_mem _ he)

theorem countP_init {self : Nat} {events : List InstanceEvent}
    (h : ∀ e ∈ events, ∃ ok, e = .init self ok) : events.countP (·.creates) = 0 := by
  rw [List.countP_eq_zero]
  intro e he
  obtain ⟨ok, rfl⟩ := h e he
  simp [InstanceEvent.creates]

namespace HalLibrary

/-- What the loop of attempts at `made` does: it ends well when one of them does. -/
structure Attempted (made : Nat) (services : List Bool) (lib : HalLibrary) (t : Tried) : Prop where
  registered : t.lib.hybris_fp_instance = lib.hybris_fp_instance
  ok : t.ok = true ↔ true ∈ services
  reported : t.ok = true ↔ .init made true ∈ t.events
  events : ∀ e ∈ t.events, ∃ ok, e = .init made ok

theorem attempted (self : Nat) (services : List Bool) (lib : HalLibrary) :
    Attempted self services lib (tryInit self services lib) := by
  induction services generalizing lib with
  | nil => exact ⟨rfl, by simp [tryInit], by simp [tryInit], by simp [tryInit]⟩
  | cons service services ih =>
    cases service with
    | true => exact ⟨rfl, by simp [tryInit, init], by simp [tryInit, init], by simp [tryInit, init]⟩
    | false =>
      obtain ⟨hregistered, hok, hreported, hevents⟩ := ih (init false lib).1
      refine ⟨hregistered, ?_, ?_, ?_⟩
      · simpa [tryInit, init] using hok
      · simpa [tryInit, init] using hreported
      · intro e he
        rcases List.mem_cons.mp he with rfl | he
        · exact ⟨false, rfl⟩
        · exact hevents e he

end HalLibrary

/-! ## Runs -/

def instanceEvents (past : List HandleEdge) : List InstanceEvent := past.flatMap (·.out.events)

/-- A handle is that of an instance that was initialised and is alive; there is none when all
attempts fail. -/
structure LiveHandle (past : List HandleEdge) (e : HandleEdge) : Prop where
  handle : ∀ self, e.out.handle = some self →
    .init self true ∈ instanceEvents (past ++ [e]) ∧ self ∈ live (instanceEvents (past ++ [e]))
  failed : (∀ self, .init self true ∉ e.out.events) → e.out.handle = none

section Runs

variable {past : List HandleEdge} {lib : HalLibrary} {services : Fin 50 → Bool}

/-- With an instance registered, nothing is done. -/
theorem new_registered {self : Nat} (h : lib.hybris_fp_instance = some self) :
    lib.u_hardware_biometry_new services = (lib, { events := [], handle := none }) := by
  simp [HalLibrary.u_hardware_biometry_new, h]

theorem liveHandle_registered {self : Nat} (h : lib.hybris_fp_instance = some self) :
    LiveHandle past (halLibrary.edge lib services) := by
  have hedge : (halLibrary.edge lib services).out = { events := [], handle := none } :=
    congrArg Prod.snd (new_registered h)
  refine ⟨fun p hp => ?_, fun _ => ?_⟩
  · rw [hedge] at hp
    cases hp
  · rw [hedge]

theorem new_succeeds (h : lib.hybris_fp_instance = none) (hok : (lib.attempts services).ok = true) :
    halLibrary.step lib services =
      ({ (lib.attempts services).lib with hybris_fp_instance := some lib.made },
        { events := .created lib.made :: (lib.attempts services).events
          handle := some lib.made }) := by
  simp [halLibrary, HalLibrary.u_hardware_biometry_new, h, hok]

/-- When all attempts fail, what is returned is the instance that was deleted. -/
theorem new_fails (h : lib.hybris_fp_instance = none) (hok : (lib.attempts services).ok = false) :
    halLibrary.step lib services =
      ((lib.attempts services).lib,
        { events := .created lib.made :: (lib.attempts services).events ++
            HalLibrary.delete lib.made (lib.attempts services).lib
          handle := some lib.made }) := by
  have hregistered : (lib.attempts services).lib.hybris_fp_instance = some lib.made :=
    (HalLibrary.attempted _ _ _).registered
  simp [halLibrary, HalLibrary.u_hardware_biometry_new, h, hok, hregistered]

theorem attempts_ok (lib : HalLibrary) :
    (lib.attempts services).ok = true ↔ ∃ i, services i = true := by
  rw [HalLibrary.attempts, (HalLibrary.attempted _ _ _).ok, List.mem_ofFn]

/-- Without one, the handle is a live one exactly when an attempt succeeds. -/
theorem liveHandle_first (h : lib.hybris_fp_instance = none) :
    LiveHandle past (halLibrary.edge lib services) ↔ ∃ i, services i = true := by
  have htry : HalLibrary.Attempted lib.made _ _ (lib.attempts services) :=
    HalLibrary.attempted _ _ _
  rw [← attempts_ok lib]
  cases hok : (lib.attempts services).ok with
  | true =>
    have hreported : .init lib.made true ∈ (lib.attempts services).events := htry.reported.mp hok
    have hout : (halLibrary.step lib services).2 = _ := congrArg Prod.snd (new_succeeds h hok)
    refine iff_of_true ⟨fun self hself => ?_, fun hno => ?_⟩ rfl
    · obtain rfl : lib.made = self := by simpa [hout] using hself
      refine ⟨?_, ?_⟩
      · simp [instanceEvents, hout, hreported]
      · simp [live, instanceEvents, hout, List.foldl_append, alive,
          foldl_alive_init htry.events]
    · exact absurd (by simp [hout, hreported]) (hno lib.made)
  | false =>
    have hout : (halLibrary.step lib services).2 = _ := congrArg Prod.snd (new_fails h hok)
    refine iff_of_false (fun hlive => ?_) (by simp)
    have hfailed := hlive.failed fun self hself => ?_
    · simp [hout] at hfailed
    · have hin : InstanceEvent.init self true ∈ (lib.attempts services).events := by
        by_cases hhal : (lib.attempts services).lib.fpHal <;>
          simpa [hout, HalLibrary.delete, hhal] using hself
      obtain ⟨ok, he⟩ := htry.events _ hin
      obtain ⟨rfl, rfl⟩ : self = lib.made ∧ true = ok := by simpa using he
      exact absurd (htry.reported.mpr hin) (by simp [hok])

/-- It leaves an instance registered, the only one it creates. -/
theorem new_registers (h : lib.hybris_fp_instance = none) :
    (halLibrary.step lib services).1.hybris_fp_instance = some lib.made ∧
      (halLibrary.step lib services).2.events.countP (·.creates) = 1 := by
  have htry : HalLibrary.Attempted lib.made _ _ (lib.attempts services) :=
    HalLibrary.attempted _ _ _
  have hcount : (lib.attempts services).events.countP (·.creates) = 0 := countP_init htry.events
  cases hok : (lib.attempts services).ok with
  | true =>
    rw [new_succeeds h hok]
    refine ⟨rfl, ?_⟩
    rw [List.countP_cons, hcount]
    rfl
  | false =>
    rw [new_fails h hok]
    refine ⟨htry.registered, ?_⟩
    have hdelete :
        (HalLibrary.delete lib.made (lib.attempts services).lib).countP (·.creates) = 0 := by
      by_cases hhal : (lib.attempts services).lib.fpHal <;>
        simp [HalLibrary.delete, hhal, InstanceEvent.creates]
    rw [List.countP_append, List.countP_cons, hcount, hdelete]
    rfl

/-- In a run, only the first call creates an instance. -/
theorem countP_instanceEvents (lib : HalLibrary) (calls : List (Fin 50 → Bool)) :
    (instanceEvents (halLibrary.edges lib calls)).countP (·.creates) ≤
      if lib.hybris_fp_instance = none then 1 else 0 := by
  induction calls generalizing lib with
  | nil => simp [instanceEvents]
  | cons services calls ih =>
    have hcons : instanceEvents (halLibrary.edges lib (services :: calls)) =
        (halLibrary.step lib services).2.events ++
          instanceEvents (halLibrary.edges (halLibrary.step lib services).1 calls) := rfl
    have hrest := ih (halLibrary.step lib services).1
    rw [hcons, List.countP_append]
    cases h : lib.hybris_fp_instance with
    | none =>
      obtain ⟨hregistered, hcount⟩ := @new_registers lib services h
      rw [hregistered, if_neg (by simp)] at hrest
      rw [hcount, if_pos rfl]
      exact Nat.add_le_add_left hrest 1
    | some self =>
      have hstep : halLibrary.step lib services = (lib, { events := [], handle := none }) :=
        new_registered h
      rw [hstep] at hrest ⊢
      simpa [h] using hrest

/-- **A handle is a live one, in every call of a process, exactly when an attempt of its first call
succeeds**; in any case there is at most one live instance at any time. -/
theorem handle_live_iff (calls : List (Fin 50 → Bool)) :
    (halLibrary.Along {} calls LiveHandle ↔ ∀ services ∈ calls.head?, ∃ i, services i = true) ∧
      ∀ n, (live ((instanceEvents (halLibrary.edges {} calls)).take n)).length ≤ 1 := by
  refine ⟨?_, fun n => ?_⟩
  · cases calls with
    | nil => exact iff_of_true along_nil (by simp)
    | cons services calls =>
      refine ⟨fun h first hfirst => ?_, fun h => ?_⟩
      · obtain rfl : services = first := by simpa using hfirst
        exact (liveHandle_first rfl).mp (h [] services calls rfl)
      · refine along_cons ((liveHandle_first rfl).mpr (h services rfl)) ?_
        intro js later ks _
        have hregistered :
            (halLibrary.final (halLibrary.step {} services).1 js).hybris_fp_instance = some 0 := by
          refine halLibrary.invariant (I := fun lib => lib.hybris_fp_instance = some 0)
            (fun lib services' hlib => ?_) (new_registers rfl).1 js
          rw [show halLibrary.step lib services' = _ from new_registered hlib]
          exact hlib
        exact liveHandle_registered hregistered
  · refine Nat.le_trans (live_length_le _) ?_
    have hcount := countP_instanceEvents {} calls
    rw [← List.take_append_drop n (instanceEvents _), List.countP_append] at hcount
    exact Nat.le_trans (Nat.le_add_right _ _) hcount

end Runs

/-- The HAL is not there: the first call returns the instance it has deleted. -/
theorem deleted_handle_is_returned :
    let e := halLibrary.edge {} fun _ => false
    e.out.handle = some 0 ∧ live e.out.events = [] ∧ ¬ LiveHandle [] e := by
  refine ⟨by decide, by decide, fun h => ?_⟩
  obtain ⟨i, hi⟩ := (liveHandle_first rfl).mp h
  cases hi

end SailfishFpd

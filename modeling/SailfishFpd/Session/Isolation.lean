import SailfishFpd.Session.History
import SailfishFpd.Delivery
import SailfishFpd.QtStream

/-!
# Operations and left-over callbacks

A HAL that numbers the requests it accepts and queues its callbacks, each under
the number of its request; a cancelled request still gets an `ERROR_CANCELED`.
The numbers stop at the HAL: neither the callbacks nor the daemon carry them,
and a callback that is left over from an earlier operation is handled as one of
the operation that runs. What the daemon does guarantee is said by `Isolated`:
no operation replaces a running one, and callbacks without a result end none.
-/

namespace SailfishFpd

open Reactive.Machine (Simulated latest latest_snoc along_true)
open FPDCommunity

/-- The daemon, the callbacks in flight under the number of their request, oldest first, the number
of requests accepted so far, and the one that the HAL works on. -/
structure Bus where
  fpd : FPDCommunity
  callbacks : List (Nat × Callback) := []
  accepted : Nat := 0
  current : Option Nat := none
  deriving DecidableEq

inductive BusEvent where
  | call (caller : String) (c : Call)
  | timeout
  /-- The HAL queues a callback for the request with this number. -/
  | report (n : Nat) (cb : Callback)
  | deliver

structure BusInput where
  event : BusEvent
  env : Env

namespace Bus

/-- The HAL takes note of a request. -/
def request (b : Bus) (p : Request × Int) : Bus :=
  if p.1.startsOperation ∧ p.2 = SYS_OK then
    { b with accepted := b.accepted + 1, current := some (b.accepted + 1) }
  else if p.1 = .cancel then
    match b.current with
    | some n =>
      { b with callbacks := b.callbacks ++ [(n, .error ERROR_CANCELED 0)], current := none }
    | none => b
  else b

/-- The daemon after a handler, with its requests noted. -/
def handled (b : Bus) (x : Exec) : Bus :=
  (requestsOf x.out).foldl request { b with fpd := x.self }

variable [QDataStream]

def step (b : Bus) (i : BusInput) : Bus × Response :=
  match i.event with
  | .call caller c =>
    let r := invoke i.env caller c { self := b.fpd }
    (b.handled r.1, { out := r.1.out, answer := some r.2 })
  | .timeout =>
    if b.fpd.m_cancelTimer then
      let x := slot_cancelIdentify i.env { self := { b.fpd with m_cancelTimer := false } }
      (b.handled x, { out := x.out })
    else (b, {})
  | .report n cb =>
    if 0 < n ∧ n ≤ b.accepted then ({ b with callbacks := b.callbacks ++ [(n, cb)] }, {})
    else (b, {})
  | .deliver =>
    match b.callbacks with
    | [] => (b, {})
    | (_, cb) :: callbacks =>
      let x := receive i.env cb { self := b.fpd }
      ({ b with callbacks }.handled x, { out := x.out })

/-- The daemon and the HAL when the constructor has returned. -/
def boot (env : Env) (getprop : String → String) (database : Option (List UInt8)) : Bus :=
  let x := FPDCommunity.construct env getprop database
  handled { fpd := x.self } x

end Bus

/-- The daemon's event loop over the HAL's queue. -/
def bus [QDataStream] : Reactive.Machine Bus BusInput Response where
  step := Bus.step

abbrev BusEdge := Reactive.Edge Bus BusInput Response

/-- The call whose request the HAL accepted last. -/
def starter (past : List BusEdge) : Option (String × Call) :=
  latest (fun e => match e.input.event with
    | .call caller c => if e.src.accepted < e.dst.accepted then some (caller, c) else none
    | _ => none) past

/-- The callback has no result for the daemon: it ends no operation. -/
def Callback.Quiet (d : FPDCommunity) : Callback → Prop
  | .acquired _ => True
  | .error code _ => code = ERROR_NO_ERROR
  | .authenticated finger => finger = 0 ∧ d.m_state = .FPSTATE_IDENTIFYING
  | .enrollresult _ remaining => remaining ≠ 0 ∧ d.m_state ≠ .FPSTATE_VERIFYING
  | .enumerate _ remaining => remaining ≠ 0
  | .removed finger remaining =>
    remaining ≠ 0 ∨
      (d.m_androidFP.m_removingFinger ≠ 0 ∧ finger ≠ d.m_androidFP.m_removingFinger)

/-- What may end a running operation: a callback with a result, its own or one that was left over,
an `Abort` by its owner (by anyone, when it has none), the cancel timer. -/
def Ends (e : BusEdge) : Prop :=
  (e.input.event = .deliver ∧
    ∃ n cb callbacks, e.src.callbacks = (n, cb) :: callbacks ∧ ¬ cb.Quiet e.src.fpd) ∨
  (∃ caller, e.input.event = .call caller .Abort ∧
    (e.src.fpd.m_dbusCaller = "" ∨ e.src.fpd.m_dbusCaller = caller)) ∨
  e.input.event = .timeout

/-- How far operations are isolated from each other's callbacks. -/
structure Isolated (past : List BusEdge) (e : BusEdge) : Prop where
  /-- The owner of a running operation is the caller whose request was accepted last. -/
  owner : e.src.fpd.m_state ≠ .FPSTATE_IDLE → e.src.fpd.m_state ≠ .FPSTATE_ENUMERATING →
    ∃ c, starter past = some (e.src.fpd.m_dbusCaller, c) ∧ c.busyState = e.src.fpd.m_state
  /-- The start-up enumeration is nobody's. -/
  unowned : e.src.fpd.m_state = .FPSTATE_ENUMERATING → e.src.fpd.m_dbusCaller = ""
  /-- No operation is accepted while one runs. -/
  kept : e.src.fpd.m_state ≠ .FPSTATE_IDLE → e.dst.accepted = e.src.accepted
  /-- A running operation ends in the idle state, without an owner, and for a reason. -/
  ends : e.src.fpd.m_state ≠ .FPSTATE_IDLE → ¬ SameSession e.src.fpd e.dst.fpd →
    e.dst.fpd.Ended ∧ Ends e
  /-- A callback without a result changes nothing of the session and is no failure. -/
  quiet : ∀ n cb callbacks, e.input.event = .deliver → e.src.callbacks = (n, cb) :: callbacks →
    cb.Quiet e.src.fpd → SameSession e.src.fpd e.dst.fpd ∧ .failed ∉ reports e.out.out
  /-- An error that comes when nothing runs changes nothing of the session and is no failure. -/
  idle : ∀ n code vendorCode callbacks, e.input.event = .deliver →
    e.src.callbacks = (n, .error code vendorCode) :: callbacks →
    e.src.fpd.m_state = .FPSTATE_IDLE →
      SameSession e.src.fpd e.dst.fpd ∧ .failed ∉ reports e.out.out

/-! ## The HAL's numbers -/

namespace Bus

theorem request_fpd (b : Bus) (p : Request × Int) : (b.request p).fpd = b.fpd := by
  unfold request
  split
  · rfl
  · split
    · split <;> rfl
    · rfl

theorem request_accepted {b : Bus} {p : Request × Int}
    (h : ¬ (p.1.startsOperation ∧ p.2 = SYS_OK)) : (b.request p).accepted = b.accepted := by
  unfold request
  rw [if_neg h]
  split
  · split <;> rfl
  · rfl

@[simp] theorem handled_fpd (b : Bus) (x : Exec) : (b.handled x).fpd = x.self := by
  have hfold : ∀ (ps : List (Request × Int)) (b : Bus), (ps.foldl request b).fpd = b.fpd := by
    intro ps
    induction ps with
    | nil => intro b; rfl
    | cons p ps ih => intro b; rw [List.foldl_cons, ih, request_fpd]
  rw [handled, hfold]

theorem handled_accepted {b : Bus} {x : Exec}
    (h : ∀ p ∈ requestsOf x.out, ¬ (p.1.startsOperation ∧ p.2 = SYS_OK)) :
    (b.handled x).accepted = b.accepted := by
  have hfold : ∀ (ps : List (Request × Int)) (b : Bus),
      (∀ p ∈ ps, ¬ (p.1.startsOperation ∧ p.2 = SYS_OK)) →
        (ps.foldl request b).accepted = b.accepted := by
    intro ps
    induction ps with
    | nil => intro b _; rfl
    | cons p ps ih =>
      intro b hps
      rw [List.foldl_cons, ih _ fun q hq => hps q (List.mem_cons_of_mem _ hq),
        request_accepted (hps p List.mem_cons_self)]
  rw [handled, hfold _ _ h]

end Bus

/-! ## Callbacks without a result -/

/-- The callback posts at most one signal, whose slot leaves the session alone. -/
def Inert (hal : Hal) (cb : Callback) (d : FPDCommunity) : Prop :=
  (d.m_androidFP.callback hal cb).requests = [] ∧
    ((d.m_androidFP.callback hal cb).signals = [] ∨ ∃ signal,
      (d.m_androidFP.callback hal cb).signals = [signal] ∧ d.signalMove signal = .stay)

theorem Callback.Quiet.inert {cb : Callback} {d : FPDCommunity} (h : cb.Quiet d) (hal : Hal) :
    Inert hal cb d := by
  cases cb with
  | enrollresult finger remaining =>
    have hpos : 0 < remaining := UInt32.pos_iff_ne_zero.mpr h.1
    obtain ⟨hrequests, pc, hsignals⟩ :
        (d.m_androidFP.callback hal (.enrollresult finger remaining)).requests = [] ∧
          ∃ pc, (d.m_androidFP.callback hal (.enrollresult finger remaining)).signals =
            [.enrollProgress pc] := by
      simp [AndroidFP.callback, AndroidFP.enrollCallback, hpos]
    exact ⟨hrequests, .inr ⟨_, hsignals, if_neg h.2⟩⟩
  | acquired info => exact ⟨rfl, .inr ⟨_, rfl, rfl⟩⟩
  | authenticated finger =>
    obtain ⟨rfl, hs⟩ := h
    exact ⟨rfl, .inr ⟨_, rfl, if_pos (.inr ⟨hs, rfl⟩)⟩⟩
  | error code vendorCode =>
    obtain rfl : code = ERROR_NO_ERROR := h
    exact ⟨rfl, .inl rfl⟩
  | removed finger remaining =>
    have hno : ¬ ((finger = d.m_androidFP.m_removingFinger ∨ d.m_androidFP.m_removingFinger = 0) ∧
        remaining = 0) := by
      rcases h with hr | ⟨hz, hf⟩ <;> tauto
    refine ⟨?_, .inl ?_⟩
    · simp only [AndroidFP.callback, AndroidFP.removeCallback, if_neg hno]
    · simp only [AndroidFP.callback, AndroidFP.removeCallback, if_neg hno]
  | enumerate finger remaining =>
    have hr : remaining ≠ 0 := h
    exact ⟨rfl, .inl (if_neg hr)⟩

theorem inert_error {d : FPDCommunity} (hs : d.m_state = .FPSTATE_IDLE) (hal : Hal)
    (code vendorCode : Int) : Inert hal (.error code vendorCode) d := by
  by_cases hc : code = ERROR_NO_ERROR
  · exact ⟨rfl, .inl (if_pos hc)⟩
  · exact ⟨rfl, .inr ⟨_, if_neg hc, if_pos (.inl hs)⟩⟩

theorem receive_inert [QDataStream] {env : Env} {cb : Callback} {d : FPDCommunity}
    (h : Inert env.hal cb d) :
    SameSession d (receive env cb { self := d }).self ∧
      .failed ∉ reports (receive env cb { self := d }).out := by
  obtain ⟨hrequests, hsignals⟩ := h
  simp only [receive, hrequests, List.map_nil, List.append_nil]
  rcases hsignals with hnone | ⟨signal, hone, hm⟩
  · rw [hnone]
    exact ⟨⟨rfl, rfl⟩, List.not_mem_nil⟩
  · rw [hone]
    have hmakes : Makes _ _ (slot env signal
        { self := { d with m_androidFP := (d.m_androidFP.callback env.hal cb).self } }) :=
      makes_slot signal
    have hstay : ({ d with m_androidFP := (d.m_androidFP.callback env.hal cb).self } :
        FPDCommunity).signalMove signal = .stay := by
      rw [← hm]
      cases signal <;> rfl
    rw [hstay] at hmakes
    refine ⟨sameSession_of_control hmakes.control, ?_⟩
    show .failed ∉ reports (slot env signal _).out
    rw [hmakes.reports]
    exact List.not_mem_nil

section Runs

variable [QDataStream]

/-! ## Runs of the daemon -/

theorem bus_simulated : Simulated bus daemon (fun b t => t = ⟨b.fpd, []⟩) (·.out) (·.out) := by
  rintro b _ ⟨event, env⟩ rfl
  cases event with
  | call caller c =>
    refine ⟨[⟨.call caller c, env⟩], ?_, ?_⟩ <;> simp [daemon, System.step, bus, Bus.step]
  | timeout =>
    refine ⟨[⟨.timeout, env⟩], ?_⟩
    by_cases ht : b.fpd.m_cancelTimer <;> simp [daemon, System.step, bus, Bus.step, ht]
  | report n cb =>
    refine ⟨[], ?_⟩
    by_cases hn : 0 < n ∧ n ≤ b.accepted <;> simp [bus, Bus.step, hn]
  | deliver =>
    cases hq : b.callbacks with
    | nil => exact ⟨[], by simp [bus, Bus.step, hq]⟩
    | cons p callbacks =>
      obtain ⟨hfinal, hout⟩ := receive_run env p.2 b.fpd
      refine ⟨_, hfinal.trans ?_, hout.trans ?_⟩ <;> simp [bus, Bus.step, hq]

/-- A run with the HAL's queue is a run of the daemon. -/
theorem bus_run (b : Bus) (is : List BusInput) :
    ∃ js, daemon.final ⟨b.fpd, []⟩ js = ⟨(bus.final b is).fpd, []⟩ ∧
      (daemon.edges ⟨b.fpd, []⟩ js).flatMap (·.out.out) = (bus.edges b is).flatMap (·.out.out) :=
  bus_simulated.run is rfl

/-! ## Steps -/

theorem bus_call (b : Bus) (env : Env) (caller : String) (c : Call) :
    (bus.step b ⟨.call caller c, env⟩).1.fpd.control =
      b.fpd.control.apply (b.fpd.callMove env.hal caller c) := by
  have h : Makes (b.fpd.callMove env.hal caller c) _ _ := makes_invoke c (x := { self := b.fpd })
  show (b.handled (invoke env caller c { self := b.fpd }).1).fpd.control = _
  rw [Bus.handled_fpd]
  exact h.control

theorem bus_call_accepted (b : Bus) (env : Env) (caller : String) (c : Call) :
    (bus.step b ⟨.call caller c, env⟩).1.accepted =
      b.accepted + if b.fpd.callMove env.hal caller c = .start caller c then 1 else 0 := by
  have hrequests := invoke_requests env caller c { self := b.fpd }
  show (b.handled (invoke env caller c { self := b.fpd }).1).accepted = _
  rcases callMove_cases b.fpd env.hal caller c with
    ⟨h, hm⟩ | ⟨rfl, -, -, hm⟩ | ⟨r, h, hr, hm⟩ | ⟨r, h, hr, hm⟩ <;> rw [hm] at hrequests ⊢
  · refine Bus.handled_accepted fun p hp => ?_
    rw [hrequests] at hp
    exact absurd hp List.not_mem_nil
  · refine Bus.handled_accepted fun p hp => ?_
    rw [hrequests] at hp
    obtain rfl : p = _ := by simpa using hp
    simp [Request.startsOperation]
  · have hone : requestsOf (invoke env caller c { self := b.fpd }).1.out = [(r, env.hal r)] := by
      simpa [h] using hrequests
    simp [Bus.handled, hone, Bus.request, requestOf_starts h, hr]
  · refine Bus.handled_accepted fun p hp => ?_
    rw [hrequests] at hp
    obtain rfl : p = (r, env.hal r) := by simpa [h] using hp
    simp [hr]

theorem bus_report (b : Bus) (env : Env) (n : Nat) (cb : Callback) :
    (bus.step b ⟨.report n cb, env⟩).1.fpd = b.fpd ∧
      (bus.step b ⟨.report n cb, env⟩).1.accepted = b.accepted := by
  simp only [bus, Bus.step]
  split <;> exact ⟨rfl, rfl⟩

/-- Everything but a call leaves the session alone or ends it, and is not counted. -/
theorem bus_other {b : Bus} {i : BusInput} (hi : ∀ caller c, i.event ≠ .call caller c) :
    (SameSession b.fpd (bus.step b i).1.fpd ∨ (bus.step b i).1.fpd.Ended) ∧
      (bus.step b i).1.accepted = b.accepted := by
  obtain ⟨event, env⟩ := i
  cases event with
  | call caller c => exact absurd rfl (hi caller c)
  | timeout =>
    by_cases ht : b.fpd.m_cancelTimer
    · have hstep : (bus.step b ⟨.timeout, env⟩).1 = b.handled
          (slot_cancelIdentify env { self := { b.fpd with m_cancelTimer := false } }) := by
        simp [bus, Bus.step, ht]
      rw [hstep]
      refine ⟨.inr ?_, Bus.handled_accepted fun p hp => ?_⟩
      · rw [Bus.handled_fpd, slot_cancelIdentify_self]
        exact ⟨rfl, rfl⟩
      · obtain rfl : p = (.cancel, env.hal .cancel) := by
          simpa [slot_cancelIdentify, Output.request?] using hp
        simp [Request.startsOperation]
    · have hstep : (bus.step b ⟨.timeout, env⟩).1 = b := by simp [bus, Bus.step, ht]
      rw [hstep]
      exact ⟨.inl ⟨rfl, rfl⟩, rfl⟩
  | report n cb =>
    obtain ⟨hfpd, haccepted⟩ := bus_report b env n cb
    rw [hfpd]
    exact ⟨.inl ⟨rfl, rfl⟩, haccepted⟩
  | deliver =>
    obtain ⟨d, callbacks, accepted, current⟩ := b
    cases callbacks with
    | nil => exact ⟨.inl ⟨rfl, rfl⟩, rfl⟩
    | cons p callbacks =>
      refine ⟨?_, Bus.handled_accepted fun q hq => ?_⟩
      · have h := receive_session env p.2 d
        simpa [bus, Bus.step] using h
      · have hq' := receive_starts_nothing env p.2 d q hq
        simp [hq']

theorem bus_deliver {b : Bus} {i : BusInput} {n : Nat} {cb : Callback}
    {callbacks : List (Nat × Callback)} (hi : i.event = .deliver)
    (hq : b.callbacks = (n, cb) :: callbacks) :
    (bus.step b i).1.fpd = (receive i.env cb { self := b.fpd }).self ∧
      (bus.step b i).2.out = (receive i.env cb { self := b.fpd }).out := by
  simp [bus, Bus.step, hi, hq]

theorem bus_inert {b : Bus} {i : BusInput} {n : Nat} {cb : Callback}
    {callbacks : List (Nat × Callback)} (hi : i.event = .deliver)
    (hq : b.callbacks = (n, cb) :: callbacks) (h : Inert i.env.hal cb b.fpd) :
    SameSession b.fpd (bus.step b i).1.fpd ∧ .failed ∉ reports (bus.step b i).2.out := by
  obtain ⟨hfpd, hout⟩ := bus_deliver hi hq
  rw [hfpd, hout]
  exact receive_inert h

/-- The owner of a running operation is the caller whose request was accepted last. -/
def BusTracks (past : List BusEdge) (b : Bus) : Prop :=
  b.fpd.m_state ≠ .FPSTATE_IDLE → b.fpd.m_state ≠ .FPSTATE_ENUMERATING →
    ∃ c, starter past = some (b.fpd.m_dbusCaller, c) ∧ c.busyState = b.fpd.m_state

theorem busTracks_call {past : List BusEdge} {b : Bus} (env : Env) (caller : String) (c : Call)
    (h : BusTracks past b) :
    BusTracks (past ++ [bus.edge b ⟨.call caller c, env⟩])
      (bus.step b ⟨.call caller c, env⟩).1 := by
  have hcontrol := bus_call b env caller c
  have haccepted := bus_call_accepted b env caller c
  have hstarter : starter (past ++ [bus.edge b ⟨.call caller c, env⟩]) =
      (if b.fpd.callMove env.hal caller c = .start caller c then some (caller, c)
        else none).or (starter past) := by
    rw [starter, latest_snoc]
    simp only [Reactive.Machine.edge_input, Reactive.Machine.edge_src, Reactive.Machine.edge_dst,
      haccepted]
    congr 1
    by_cases hm : b.fpd.callMove env.hal caller c = .start caller c <;> simp [hm]
  have hstate := congrArg Control.state hcontrol
  have howner := congrArg Control.owner hcontrol
  simp only [control_state, control_owner] at hstate howner
  rw [BusTracks, hstarter, hstate, howner]
  rcases callMove_cases b.fpd env.hal caller c with
    ⟨-, hm⟩ | ⟨rfl, -, -, hm⟩ | ⟨r, -, -, hm⟩ | ⟨r, -, -, hm⟩ <;> rw [hm]
  · simpa [Control.apply, BusTracks] using h
  · exact fun hs => absurd rfl hs
  · exact fun _ _ => ⟨c, by simp [Control.apply], rfl⟩
  · exact fun hs => absurd rfl hs

theorem busTracks_step {past : List BusEdge} {b : Bus} {i : BusInput} (h : BusTracks past b) :
    BusTracks (past ++ [bus.edge b i]) (bus.step b i).1 := by
  by_cases hi : ∀ caller c, i.event ≠ .call caller c
  · have hstarter : starter (past ++ [bus.edge b i]) = starter past := by
      rw [starter, latest_snoc]
      obtain ⟨event, env⟩ := i
      cases event with
      | call caller c => exact absurd rfl (hi caller c)
      | _ => rfl
    intro hs he
    rcases (bus_other hi).1 with hsame | hend
    · rw [hsame.1] at hs he
      rw [hstarter, hsame.1, hsame.2]
      exact h hs he
    · exact absurd hend.1 hs
  · obtain ⟨event, env⟩ := i
    simp only [not_forall, not_not] at hi
    obtain ⟨caller, c, rfl⟩ := hi
    exact busTracks_call env caller c h

/-- An enumeration is nobody's. -/
def BusUnowned (b : Bus) : Prop :=
  b.fpd.m_state = .FPSTATE_ENUMERATING → b.fpd.m_dbusCaller = ""

theorem busUnowned_step {b : Bus} {i : BusInput} (h : BusUnowned b) :
    BusUnowned (bus.step b i).1 := by
  intro hs
  by_cases hi : ∀ caller c, i.event ≠ .call caller c
  · rcases (bus_other hi).1 with hsame | hend
    · rw [hsame.2]
      exact h (hsame.1.symm.trans hs)
    · rw [hend.1] at hs
      cases hs
  · obtain ⟨event, env⟩ := i
    simp only [not_forall, not_not] at hi
    obtain ⟨caller, c, rfl⟩ := hi
    have hcontrol := bus_call b env caller c
    have hstate := congrArg Control.state hcontrol
    have howner := congrArg Control.owner hcontrol
    simp only [control_state, control_owner] at hstate howner
    rw [hstate] at hs
    rw [howner]
    rcases callMove_cases b.fpd env.hal caller c with
      ⟨-, hm⟩ | ⟨rfl, -, -, hm⟩ | ⟨r, -, -, hm⟩ | ⟨r, -, -, hm⟩ <;> rw [hm] at hs ⊢
    · exact h hs
    · cases hs
    · cases c <;> cases hs
    · cases hs

theorem bus_kept {b : Bus} (hs : b.fpd.m_state ≠ .FPSTATE_IDLE) (i : BusInput) :
    (bus.edge b i).dst.accepted = b.accepted := by
  by_cases hi : ∀ caller c, i.event ≠ .call caller c
  · exact (bus_other hi).2
  · obtain ⟨event, env⟩ := i
    simp only [not_forall, not_not] at hi
    obtain ⟨caller, c, rfl⟩ := hi
    have haccepted := bus_call_accepted b env caller c
    have hbusy : b.fpd.callMove env.hal caller c ≠ .start caller c := by
      intro hm
      have hen : (b.fpd.callMove env.hal caller c).Enabled b.fpd.control :=
        System.move_enabled ⟨b.fpd, []⟩ ⟨.call caller c, env⟩
      rw [hm] at hen
      exact hs hen.1
    rw [if_neg hbusy] at haccepted
    exact haccepted

/-- What changes the session of a busy daemon ends it, and is a reason to. -/
theorem bus_ends {b : Bus} {i : BusInput} (hs : b.fpd.m_state ≠ .FPSTATE_IDLE)
    (hchange : ¬ SameSession b.fpd (bus.edge b i).dst.fpd) :
    (bus.edge b i).dst.fpd.Ended ∧ Ends (bus.edge b i) := by
  obtain ⟨event, env⟩ := i
  cases event with
  | call caller c =>
    have hcontrol := bus_call b env caller c
    rcases callMove_cases b.fpd env.hal caller c with
      ⟨-, hm⟩ | ⟨rfl, hb, -, hm⟩ | ⟨r, hr, -, -⟩ | ⟨r, hr, -, -⟩
    · rw [hm] at hcontrol
      exact absurd (sameSession_of_control hcontrol) hchange
    · rw [hm] at hcontrol
      refine ⟨ended_of_control hcontrol, .inr (.inl ⟨caller, rfl, ?_⟩)⟩
      simpa [busyForOther, or_iff_not_imp_left] using hb
    · exact absurd (requestOf_free hr).2 hs
    · exact absurd (requestOf_free hr).2 hs
  | timeout =>
    rcases (bus_other (b := b) (i := ⟨.timeout, env⟩) (by simp)).1 with hsame | hend
    · exact absurd hsame hchange
    · exact ⟨hend, .inr (.inr rfl)⟩
  | report n cb =>
    have hfpd : (bus.edge b ⟨.report n cb, env⟩).dst.fpd = b.fpd := (bus_report b env n cb).1
    exact absurd (by rw [hfpd]; exact ⟨rfl, rfl⟩) hchange
  | deliver =>
    cases hq : b.callbacks with
    | nil =>
      have hstep : (bus.edge b ⟨.deliver, env⟩).dst = b := by simp [bus, Bus.step, hq]
      exact absurd (by rw [hstep]; exact ⟨rfl, rfl⟩) hchange
    | cons p callbacks =>
      obtain ⟨hfpd, -⟩ := bus_deliver (b := b) (i := ⟨.deliver, env⟩) rfl hq
      have hdst : (bus.edge b ⟨.deliver, env⟩).dst.fpd =
          (receive env p.2 { self := b.fpd }).self := hfpd
      rw [hdst] at hchange ⊢
      refine ⟨(receive_session env p.2 b.fpd).resolve_left hchange, .inl ⟨rfl, p.1, p.2, _, hq, ?_⟩⟩
      exact fun hquiet => hchange (receive_inert (hquiet.inert env.hal)).1

theorem isolated_step {past : List BusEdge} {b : Bus} (h : BusTracks past b) (hu : BusUnowned b)
    (i : BusInput) : Isolated past (bus.edge b i) where
  owner := h
  unowned := hu
  kept hs := bus_kept hs i
  ends hs hchange := bus_ends hs hchange
  quiet _ _ _ hi hq hquiet := bus_inert hi hq (hquiet.inert i.env.hal)
  idle _ code vendorCode _ hi hq hidle :=
    bus_inert hi hq (inert_error hidle i.env.hal code vendorCode)

omit [QDataStream] in
theorem bus_boot_fpd (env : Env) (getprop : String → String) (database : Option (List UInt8)) :
    (Bus.boot env getprop database).fpd = (boot env getprop database).fpd := Bus.handled_fpd _ _

omit [QDataStream] in
theorem busTracks_boot (env : Env) (getprop : String → String) (database : Option (List UInt8)) :
    BusTracks [] (Bus.boot env getprop database) := by
  intro hs he
  rw [bus_boot_fpd, boot_fpd] at hs he
  by_cases hr : env.hal .enumerate = SYS_OK
  · exact absurd (if_pos hr) he
  · exact absurd (if_neg hr) hs

omit [QDataStream] in
theorem busUnowned_boot (env : Env) (getprop : String → String) (database : Option (List UInt8)) :
    BusUnowned (Bus.boot env getprop database) := by
  intro _
  rw [bus_boot_fpd, boot_fpd]

/-- **Operations are isolated from left-over callbacks as far as these have no result**: in every
run, an operation is not replaced, and ends only by a callback with a result, whose ever it is, by
an `Abort` of its owner, or by the timer. -/
theorem operations_isolated (env : Env) (getprop : String → String)
    (database : Option (List UInt8)) (is : List BusInput) :
    bus.Along (Bus.boot env getprop database) is Isolated := by
  have htracks : bus.Visits (Bus.boot env getprop database) is fun past b =>
      BusTracks past b ∧ BusUnowned b :=
    along_true.visits ⟨busTracks_boot env getprop database, busUnowned_boot env getprop database⟩
      fun _ _ _ h _ => ⟨busTracks_step h.1, busUnowned_step h.2⟩
  exact along_true.of_visits htracks fun _ _ i h _ => isolated_step h.1 h.2 i

end Runs

/-- `:1.5` aborts its `Enroll`, and `:1.9` starts one. The `ERROR_CANCELED` of the first request is
then taken for one of the second, which `:1.9` did not cancel and the HAL goes on with. -/
theorem cancelled_error_ends_next :
    letI := qt56
    let b := bus.final (Bus.boot (.answering SYS_EBUSY) (fun _ => "") none)
      [⟨.call ":1.5" (.Enroll "left"), .answering SYS_OK⟩,
        ⟨.call ":1.5" .Abort, .answering SYS_OK⟩,
        ⟨.call ":1.9" (.Enroll "right"), .answering SYS_OK⟩]
    b.callbacks = [(1, .error ERROR_CANCELED 0)] ∧ b.current = some 2 ∧
      b.fpd.m_state = .FPSTATE_ENROLLING ∧ b.fpd.m_dbusCaller = ":1.9" ∧
      (bus.step b ⟨.deliver, .answering SYS_OK⟩).1.fpd.m_state = .FPSTATE_IDLE ∧
      (bus.step b ⟨.deliver, .answering SYS_OK⟩).2.out =
        [.signal (.ErrorInfo "ERROR_CANCELED"), .signal .Failed,
          .signal (.StateChanged "FPSTATE_IDLE")] := by
  decide

end SailfishFpd

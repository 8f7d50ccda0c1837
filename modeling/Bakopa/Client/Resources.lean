import Bakopa.Client.Bridge

/-!
# Bakopa.Client.Resources

What a `ClientBootstrap` that is not running still holds.

`start` acquires the XR runtime and then the bridge; `shutdown` releases both, and does nothing
unless `running` is set, which happens at the end of `start` only. So a `start` that fails after
`enable` leaves the runtime enabled, and no later `shutdown` releases it: `Leaks` is such a call,
and `released_iff` says that there is no other way to lose a resource.

The calls that reach the runtime and the bridge are recorded by `WatchedXr` and `WatchedBridge`,
which pass every call on.
-/

namespace Bakopa
namespace Client

open Lib

inductive XrCall where
  | enable (result : Except XrError Unit)
  | shutdown

structure WatchedXr (ξ : Type) where
  xr : ξ
  calls : List XrCall

instance {ξ : Type} [XrRuntime ξ] : XrRuntime (WatchedXr ξ) where
  enable w :=
    let (xr, result) := XrRuntime.enable w.xr
    (⟨xr, w.calls ++ [.enable result]⟩, result)
  isReady w := XrRuntime.isReady w.xr
  shutdown w :=
    let (xr, result) := XrRuntime.shutdown w.xr
    (⟨xr, w.calls ++ [.shutdown]⟩, result)

inductive BridgeCall where
  | onStart (result : Except BridgeError Unit)
  | onShutdown

structure WatchedBridge (β : Type) where
  bridge : β
  calls : List BridgeCall

instance {β : Type} [RuntimeBridge β] : RuntimeBridge (WatchedBridge β) where
  onStart w :=
    let (bridge, result) := RuntimeBridge.onStart w.bridge
    (⟨bridge, w.calls ++ [.onStart result]⟩, result)
  onShutdown w :=
    let (bridge, result) := RuntimeBridge.onShutdown w.bridge
    (⟨bridge, w.calls ++ [.onShutdown]⟩, result)
  onFrame w input :=
    let (bridge, result) := RuntimeBridge.onFrame w.bridge input
    (⟨bridge, w.calls⟩, result)

namespace ClientBootstrap

variable {ξ β : Type}

/-- Every `enable` that returned `Ok` has been followed by a `shutdown` of the runtime. -/
def XrReleased (calls : List XrCall) : Prop :=
  Followed (· = .enable (.ok ())) (· = .shutdown) calls

/-- Every `on_start` that returned `Ok` has been followed by an `on_shutdown`. -/
def BridgeReleased (calls : List BridgeCall) : Prop :=
  Followed (· = .onStart (.ok ())) (· = .onShutdown) calls

/-- If the bootstrap is not running, everything that was acquired has been released. -/
def Released (s : ClientBootstrap (WatchedXr ξ) (WatchedBridge β)) : Prop :=
  s.running = false → XrReleased s.xr.calls ∧ BridgeReleased s.bridge.calls

variable [XrRuntime ξ] [RuntimeBridge β] {s s' : ClientBootstrap (WatchedXr ξ) (WatchedBridge β)}
  {a : BootstrapCall} {o : List BootstrapResult}

/-- A `start` while not running that fails after the runtime has been enabled. -/
def Leaks (s : ClientBootstrap ξ β) : BootstrapCall → Prop
  | .start => s.running = false ∧ (XrRuntime.enable s.xr).2 = .ok () ∧
      (XrRuntime.isReady (XrRuntime.enable s.xr).1 = true →
        (RuntimeBridge.onStart s.bridge).2 ≠ .ok ())
  | .tickFrame | .tick _ | .shutdown => False

/-- The outcomes of `start`. -/
inductive Started (s s' : ClientBootstrap (WatchedXr ξ) (WatchedBridge β)) : Prop
  | refused (e : XrError) (hxr : (XrRuntime.enable s.xr).2 = .error e)
      (hrunning : s'.running = s.running)
      (hcalls : s'.xr.calls = s.xr.calls ++ [.enable (.error e)])
      (hbridge : s'.bridge.calls = s.bridge.calls)
  | abandoned (hxr : (XrRuntime.enable s.xr).2 = .ok ())
      (hstart : XrRuntime.isReady (XrRuntime.enable s.xr).1 = true →
        (RuntimeBridge.onStart s.bridge).2 ≠ .ok ())
      (hrunning : s'.running = s.running)
      (hcalls : s'.xr.calls = s.xr.calls ++ [.enable (.ok ())])
  | entered (hready : XrRuntime.isReady (XrRuntime.enable s.xr).1 = true)
      (hstart : (RuntimeBridge.onStart s.bridge).2 = .ok ())
      (hrunning : s'.running = true)

theorem enable_calls (w : WatchedXr ξ) :
    (XrRuntime.enable w).1.calls = w.calls ++ [.enable (XrRuntime.enable w).2] := rfl

theorem start_started (s : ClientBootstrap (WatchedXr ξ) (WatchedBridge β)) :
    Started s s.start.1 := by
  have hcalls := enable_calls s.xr
  unfold start
  cases hxr : (XrRuntime.enable s.xr).2 with
  | error e =>
    rw [hxr] at hcalls
    simp only [hxr]
    exact .refused e hxr rfl hcalls rfl
  | ok u =>
    rw [hxr] at hcalls
    cases hready : XrRuntime.isReady (XrRuntime.enable s.xr).1 with
    | false =>
      simp only [hxr, hready, Bool.not_false, if_true]
      exact .abandoned hxr (by simp [hready]) rfl hcalls
    | true =>
      cases hstart : (RuntimeBridge.onStart s.bridge).2 with
      | error e =>
        simp only [hxr, hready, hstart, Bool.not_true, Bool.false_eq_true, if_false]
        exact .abandoned hxr (by simp [hstart]) rfl hcalls
      | ok v =>
        simp only [hxr, hready, hstart, Bool.not_true, Bool.false_eq_true, if_false]
        exact .entered hready hstart rfl

theorem shutdown_released (hrunning : s.running = true) (hshutdown : s.shutdown.1 = s') :
    XrReleased s'.xr.calls ∧ BridgeReleased s'.bridge.calls := by
  subst hshutdown
  simp only [shutdown, hrunning, Bool.not_true, Bool.false_eq_true, if_false]
  constructor
  · exact Followed.snoc_iff.mpr ⟨by simp, .inl rfl⟩
  · exact Followed.snoc_iff.mpr ⟨by simp, .inl rfl⟩

theorem frame_quiet (h : step s a = some (s', o))
    (ha : a = .tickFrame ∨ ∃ inputs, a = .tick inputs) :
    s'.running = s.running ∧ s'.xr = s.xr ∧ s'.bridge.calls = s.bridge.calls := by
  rcases ha with rfl | ⟨inputs, rfl⟩
  · simp only [step, tickFrame] at h
    split at h
    · cases h; exact ⟨rfl, rfl, rfl⟩
    · cases h; exact ⟨rfl, rfl, rfl⟩
  · simp only [step, tick] at h
    split at h
    · cases h; exact ⟨rfl, rfl, rfl⟩
    · cases h; exact ⟨rfl, rfl, rfl⟩

/-- A step keeps the resources of a bootstrap that is not running released exactly when it is not
a `start` that leaks. -/
theorem step_released_iff (hs : Released s) (h : step s a = some (s', o)) :
    Released s' ↔ ¬ Leaks s a := by
  have hquiet : (s'.running = s.running ∧ s'.xr = s.xr ∧ s'.bridge.calls = s.bridge.calls) →
      Released s' := by
    rintro ⟨hrunning, hxr, hbridge⟩ hstop
    rw [hrunning] at hstop
    rw [hxr, hbridge]
    exact hs hstop
  cases a with
  | start =>
    have hstarted := start_started s
    simp only [step, Option.some.injEq, Prod.mk.injEq] at h
    rw [h.1] at hstarted
    cases hstarted with
    | refused e hxr hrunning hcalls hbridge =>
      have hno : ¬ Leaks s .start := by
        rintro ⟨-, henable, -⟩
        cases hxr.symm.trans henable
      refine iff_of_true (fun hstop => ?_) hno
      rw [hrunning] at hstop
      obtain ⟨hx, hb⟩ := hs hstop
      rw [XrReleased, hcalls, Followed.snoc_iff, hbridge]
      exact ⟨⟨by simp, .inr hx⟩, hb⟩
    | abandoned hxr hstart hrunning hcalls =>
      cases hr : s.running with
      | false =>
        refine iff_of_false (fun hrel => ?_) (fun hno => hno ⟨hr, hxr, hstart⟩)
        have hx := (hrel (hrunning.trans hr)).1
        rw [XrReleased, hcalls, Followed.snoc_iff] at hx
        exact hx.1 rfl
      | true =>
        refine iff_of_true (fun hstop => ?_) (fun hleak => ?_)
        · cases (hrunning.trans hr).symm.trans hstop
        · cases hr.symm.trans hleak.1
    | entered hready hstart hrunning =>
      refine iff_of_true (fun hstop => ?_) (fun hleak => hleak.2.2 hready hstart)
      cases hrunning.symm.trans hstop
  | tickFrame => exact iff_of_true (hquiet (frame_quiet h (.inl rfl))) id
  | tick inputs => exact iff_of_true (hquiet (frame_quiet h (.inr ⟨inputs, rfl⟩))) id
  | shutdown =>
    refine iff_of_true ?_ id
    simp only [step, Option.some.injEq, Prod.mk.injEq] at h
    cases hr : s.running with
    | false =>
      refine hquiet ?_
      rw [← h.1]
      simp [shutdown, hr]
    | true => exact fun _ => shutdown_released hr h.1

/-- Every run keeps the resources of a bootstrap that is not running released, in each of its
states, exactly when none of its steps is a `start` that leaks. -/
theorem released_iff (xr : ξ) (bridge : β) (as : List BootstrapCall) :
    Machine.Always step Released
        (new (⟨xr, []⟩ : WatchedXr ξ) (⟨bridge, []⟩ : WatchedBridge β)) as ↔
      Machine.Each step (fun s a => ¬ Leaks s a)
        (new (⟨xr, []⟩ : WatchedXr ξ) (⟨bridge, []⟩ : WatchedBridge β)) as :=
  Machine.always_iff_each (J := fun _ => True) (fun _ _ _ _ _ _ => trivial)
    (fun _ _ _ _ _ hs h => step_released_iff hs h) trivial fun _ => ⟨Followed.nil, Followed.nil⟩

end ClientBootstrap

/-- The results a runtime or a bridge is set up to return. -/
structure FakeXr where
  ready : Bool
  enableResult : Except XrError Unit
  shutdownResult : Except XrError Unit

instance : XrRuntime FakeXr where
  enable xr := (xr, xr.enableResult)
  isReady xr := xr.ready
  shutdown xr := (xr, xr.shutdownResult)

structure FakeBridge where
  startResult : Except BridgeError Unit
  shutdownResult : Except BridgeError Unit

instance : RuntimeBridge FakeBridge where
  onStart bridge := (bridge, bridge.startResult)
  onShutdown bridge := (bridge, bridge.shutdownResult)
  onFrame bridge _ := (bridge, .error .notStarted)

/-- The runtime has been enabled, `start` reports that it is not ready, and `shutdown` does not
shut it down. -/
theorem not_ready_leaks :
    let xr : WatchedXr FakeXr := ⟨⟨false, .ok (), .ok ()⟩, []⟩
    let bridge : WatchedBridge FakeBridge := ⟨⟨.ok (), .ok ()⟩, []⟩
    ∃ s, Machine.Runs ClientBootstrap.step (.new xr bridge) [.start, .shutdown]
        [.start (.error .xrNotReady), .shutdown (.ok ())] s ∧
      s.running = false ∧ s.xr.calls = [.enable (.ok ())] ∧ ¬ s.Released := by
  intro xr bridge
  have hrun : ∃ s, Machine.Runs ClientBootstrap.step (.new xr bridge) [.start, .shutdown]
        [.start (.error .xrNotReady), .shutdown (.ok ())] s ∧
      s.running = false ∧ s.xr.calls = [.enable (.ok ())] := ⟨_, Machine.run_sound rfl, rfl, rfl⟩
  obtain ⟨s, hr, hstop, hcalls⟩ := hrun
  refine ⟨s, hr, hstop, hcalls, fun hrel => ?_⟩
  have hx := (hrel hstop).1
  rw [hcalls] at hx
  obtain ⟨b, hb, -⟩ := hx [] _ [] rfl rfl
  cases hb

end Client
end Bakopa

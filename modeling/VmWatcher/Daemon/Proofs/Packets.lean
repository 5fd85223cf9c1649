import VmWatcher.Daemon.Runs
import VmWatcher.Daemon.Shape
import VmWatcher.Ebpf.Proofs.Classifier

/-!
# What packets leave alone

A packet rewrites counters and the contents of state artifacts. It arms nothing, creates
and removes no artifact and leaves the whitelist alone, so a handler works on the shape of
the maps as if there were no packets.
-/

namespace VmWatcher

open OpProg

namespace EbpfMaps

variable {inserts : Inserts} {key : LimitKey} {policy : LimitPolicy} {lenBytes now : ℕ}
variable {m : EbpfMaps}

/-- Writing back an artifact that is there. -/
theorem shape_store {d : Dataplane} {s : StateArtifacts} {a : Artifact}
    (there : d.hasArtifact key a = true) : (d.store key s a).shape = d.shape := by
  cases a with
  | state =>
    have stored : Dataplane.shape { d with limitState := d.limitState.insert key s.state } =
        d.shape.onFlow key fun f => { f with artifacts := Function.update f.artifacts .state true } :=
      d.shape_setState (congrArg Option.isSome Table.insert_self) fun k h => Table.insert_of_ne h
    rw [Dataplane.store, stored]
    exact Shape.onFlow_eq_self (FlowShape.ext rfl (Function.update_eq_self_iff.mpr there.symm))
  | ring =>
    have stored : Dataplane.shape { d with swlLog := d.swlLog.insert key s.ring } =
        d.shape.onFlow key fun f => { f with artifacts := Function.update f.artifacts .ring true } :=
      d.shape_setRing (congrArg Option.isSome Table.insert_self) fun k h => Table.insert_of_ne h
    rw [Dataplane.store, stored]
    exact Shape.onFlow_eq_self (FlowShape.ext rfl (Function.update_eq_self_iff.mpr there.symm))

theorem recordVerdict_shape {passed : Bool} :
    (m.recordVerdict inserts key lenBytes passed).limits.shape = m.limits.shape := by
  unfold recordVerdict
  split <;> rfl

theorem recordOversized_limits {direction : UInt8} :
    (m.recordOversized inserts direction lenBytes).limits = m.limits := by
  unfold recordOversized
  split <;> rfl

theorem police_shape {ipv4 : UInt32} {direction : UInt8} :
    (m.police inserts ipv4 direction lenBytes now).1.limits.shape = m.limits.shape := by
  rcases police_cases inserts ipv4 direction lenBytes now m with
    ⟨policy, -, artifact, result⟩ | ⟨-, result⟩ | ⟨-, result⟩
  · rw [result]
    exact recordVerdict_shape.trans (shape_store artifact)
  · rw [result]
    exact congrArg Dataplane.shape recordOversized_limits
  · rw [result]

theorem handle_shape {host : ByteOrder} {ctx : TcContext} {isTx : Bool}
    [DecidablePred (m.limits.monitors host)] :
    (m.handle host inserts ctx isTx now).1.limits.shape = m.limits.shape := by
  by_cases monitored : ∃ ipv4, ctx.Flow isTx ipv4 ∧ m.limits.monitors host ipv4
  · obtain ⟨ipv4, flow, monitored⟩ := monitored
    rw [handle_flow flow monitored]
    exact police_shape.trans (congrArg Dataplane.shape (count_limits ctx isTx))
  · have other : ∀ ipv4, ctx.Flow isTx ipv4 → ¬ m.limits.monitors host ipv4 :=
      fun ipv4 flow hit => monitored ⟨ipv4, flow, hit⟩
    rcases handle_other other with result | result
    · rw [result]
    · rw [result]
      unfold count6
      split <;> rfl

end EbpfMaps

namespace Dataplane

variable {host : ByteOrder} {d d' : Dataplane}

theorem Packet.shape (h : d.Packet host d') : d'.shape = d.shape := by
  obtain ⟨inserts, ctx, isTx, now, counters, oversized, decides, rfl⟩ := h
  exact EbpfMaps.handle_shape

/-- A run amid packets is a run on the shape of the maps. -/
theorem runsAmid_shape {α : Type} {prog : Prog α} {a : α}
    {evs : List (OpProg.Event MapOp AnyError Dataplane)}
    (run : RunsAmid (Packet host) MapOp.exec prog d evs a d') :
    Runs Shape.exec prog d.shape (evs.map (Event.map Dataplane.shape)) a d'.shape :=
  run.map (fun _ _ => Packet.shape) exec_shape

end Dataplane

end VmWatcher

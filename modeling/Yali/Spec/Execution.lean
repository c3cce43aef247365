import Yali.Conc.Pool
import Yali.Spec.Api
import Yali.Spec.Sync

/-!
# The gateway at work

A `World` is one control-plane process and the data planes that know it. Requests
are programs in flight (`Conc.Pool`); the actions of the surroundings are those of
the connections: a data plane subscribes, `subscribe` takes its next step, the
server polls the stream and puts the item on the wire, the data plane takes the
next message and applies it, the connection breaks.

A data plane keeps the last snapshot it received as a history; nothing reads it.
-/

namespace Yali

open Conc

/-- A connection of `CpSync::run_once`: the server's side, the items its stream has
yielded, and how many of them the data plane has taken. -/
structure Connection where
  subscription : Subscription
  sent : List Proto.Snapshot
  taken : ℕ

/-- A data plane: its connection to the control plane, the routes it answers by and the last
snapshot taken. -/
structure DataPlane where
  connection : Option Connection
  state : State
  last : Option Proto.Snapshot

namespace DataPlane

/-- As `app::run` makes it. -/
def new : DataPlane := ⟨none, .new .empty, none⟩

/-- A message is taken off the stream and applied. -/
def receive (d : DataPlane) (snapshot : Proto.Snapshot) : DataPlane :=
  { d with state := d.state.update (snapshotToRoutes snapshot), last := some snapshot }

end DataPlane

/-- One process of the control plane and the data planes, by number. -/
structure World where
  cp : AppState
  dp : ℕ → DataPlane

/-- What happens at the connection of data plane `d`. -/
inductive Action
  | subscribe (d : ℕ)
  | advance (d : ℕ)
  | poll (d : ℕ)
  | deliver (d : ℕ)
  | disconnect (d : ℕ)

namespace World

def tx (w : World) : Channel Proto.Snapshot := w.cp.configState.tx

def setTx (w : World) (tx : Channel Proto.Snapshot) : World :=
  { w with cp := { w.cp with configState := { w.cp.configState with tx := tx } } }

def setDp (w : World) (d : ℕ) (x : DataPlane) : World := { w with dp := Function.update w.dp d x }

/-- An operation of a request. -/
def exec (fault : Option SqlxError) (o : Op) (w : World) : o.Res × World :=
  ((Yali.exec fault o w.cp).1, { w with cp := (Yali.exec fault o w.cp).2 })

/-- An action that is not enabled does nothing. -/
def act (w : World) : Action → World
  | .subscribe d =>
    match (w.dp d).connection with
    | some _ => w
    | none =>
      let (sub, tx) := Yali.subscribe w.tx
      (w.setTx tx).setDp d { w.dp d with connection := some ⟨sub, [], 0⟩ }
  | .advance d =>
    match (w.dp d).connection with
    | some c =>
      w.setDp d { w.dp d with connection := some { c with subscription := c.subscription.advance w.tx } }
    | none => w
  -- the item polled is on the wire until it is delivered
  | .poll d =>
    match (w.dp d).connection with
    | some ⟨.streaming s, sent, taken⟩ =>
      match s.poll w.tx with
      | some (item, s') =>
        w.setDp d { w.dp d with connection := some ⟨.streaming s', sent ++ [item], taken⟩ }
      | none => w
    | _ => w
  | .deliver d =>
    match (w.dp d).connection with
    | some c =>
      match c.sent[c.taken]? with
      | some item =>
        w.setDp d { (w.dp d).receive item with connection := some { c with taken := c.taken + 1 } }
      | none => w
    | none => w
  -- the server drops the stream and with it the receiver
  | .disconnect d =>
    match (w.dp d).connection with
    | some _ => (w.setTx w.tx.unsubscribe).setDp d { w.dp d with connection := none }
    | none => w

/-- A process whose state is `cp`, and data planes that have just started. -/
def start (cp : AppState) : World := ⟨cp, fun _ => .new⟩

end World

/-- The world with the requests in flight. -/
abbrev Gateway := Pool Op Op.Res ApiError Reply World

abbrev Event := Conc.Event Op Op.Res ApiError Reply (Option SqlxError) Action

namespace Gateway

/-- One event. -/
def next (g : Gateway) (e : Event) : Gateway := Pool.next World.exec (fun a w => w.act a) g e

/-- A run: the events one after the other. -/
def run (g : Gateway) (es : List Event) : Gateway := Pool.run World.exec (fun a w => w.act a) g es

/-- The gateway after the first `n` events. -/
def wAt (g : Gateway) (es : List Event) (n : ℕ) : Gateway :=
  Pool.wAt World.exec (fun a w => w.act a) g es n

/-- What a step does: the next operation of a program in flight, or nothing. -/
theorem step_cases (g : Gateway) (t : ℕ) (c : Option SqlxError) :
    (∃ o k, g.task t = some (.op o k) ∧
      g.next (.step t c) =
        { g with
          st := (World.exec c o g.st).2
          task := Function.update g.task t (some (k (World.exec c o g.st).1)) }) ∨
    (∀ o k, g.task t ≠ some (.op o k)) ∧ g.next (.step t c) = g :=
  Pool.step_cases World.exec (fun a w => w.act a) g t c

theorem next_step {g : Gateway} {t : ℕ} {o : Op} {k : o.Res → Prog Op Op.Res ApiError Reply}
    (h : g.task t = some (.op o k)) (c : Option SqlxError) :
    g.next (.step t c) =
      { g with
        st := (World.exec c o g.st).2
        task := Function.update g.task t (some (k (World.exec c o g.st).1)) } :=
  Pool.next_step World.exec (fun a w => w.act a) h

theorem wAt_zero (g : Gateway) (es : List Event) : g.wAt es 0 = g := Pool.wAt_zero g es

theorem wAt_succ (g : Gateway) (es : List Event) {n : ℕ} (h : n < es.length) :
    g.wAt es (n + 1) = (g.wAt es n).next es[n] := Pool.wAt_succ g es h

theorem wAt_length (g : Gateway) (es : List Event) : g.wAt es es.length = g.run es :=
  Pool.wAt_length g es

end Gateway

end Yali

import FrameScript.Machine

/-!
# The host

A host runs a script in frames. Each frame takes all that the script handed over since the last one.
-/

namespace FrameScript

/-- What a script did in one tick. -/
structure Frame where
  tick : Nat
  status : Status
  console : List String
  triangles : List Triangle
  /-- Why the script aborted in this tick, if it did. -/
  fault : Option Fault

/-- Whether the script has ended with this frame. -/
def Frame.isLast (frame : Frame) : Bool :=
  frame.status == .finished

/-- A host: its builtins, its machine, and the ticks since the last start. -/
structure Host where
  registry : Registry
  machine : Machine := {}
  ticks : Nat := 0

namespace Host

/-- The frame of a call that has stopped, and the host after it. -/
def collect (host : Host) (stop : Machine.Stop) : Frame × Host :=
  let (result, machine) := stop
  let tick := host.ticks + 1
  let frame : Frame := {
    tick
    status := match result with
      | .ok status => status
      | .error _ => machine.status
    console := machine.output.console.toList
    triangles := machine.output.triangles.toList
    fault := match result with
      | .ok _ => none
      | .error fault => some fault }
  (frame, { host with machine := { machine with output := {} }, ticks := tick })

/-- Runs a function from its beginning as the first tick. Output left over from before is
forgotten. -/
def start (host : Host) (fuel : Nat) (f : Function) : Option (Frame × Host) :=
  let fresh := { host with machine := { host.machine with output := {} }, ticks := 0 }
  (fresh.machine.run fresh.registry fuel f).map fresh.collect

/-- Goes on with the script for one tick. -/
def tick (host : Host) (fuel : Nat) : Option (Frame × Host) :=
  (host.machine.resume host.registry fuel).map host.collect

/-- The frames from one that was just played to the last one, with a bound on how many follow it. -/
def framesFrom (fuel : Nat) : Nat → Frame × Host → Option (List Frame)
  | 0, (frame, _) => some [frame]
  | more + 1, (frame, host) =>
    if frame.isLast then some [frame]
    else do
      let next ← host.tick fuel
      let rest ← framesFrom fuel more next
      return frame :: rest

/-- Runs a function until its last frame or for a number of ticks, but at least for one. -/
def frames (host : Host) (fuel : Nat) (f : Function) (limit : Nat) : Option (List Frame) := do
  let first ← host.start fuel f
  framesFrom fuel (limit - 1) first

end Host

end FrameScript

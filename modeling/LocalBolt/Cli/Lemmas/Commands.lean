import LocalBolt.Cli.Impl.Commands

/-!
This module contains what is read off the history of a command.
-/

namespace LocalBolt

namespace Cli

abbrev Events := List (Script.Event Op)

def probeAnswer : Script.Event Op → Option Bool
  | ⟨.probe _, answer⟩ => some answer
  | _ => none

/--
The answers of the probes of the socket.
-/
def probes (h : Events) : List Bool := h.filterMap probeAnswer

theorem probes_append (h h' : Events) : probes (h ++ h') = probes h ++ probes h' := by
  apply List.filterMap_append

theorem probes_cons (e : Script.Event Op) (h : Events)
    : probes (e :: h) = (probeAnswer e).toList ++ probes h := by
  rw [probes, List.filterMap_cons]
  split <;> simp_all [probes]

def told (line : String) : Script.Event Op := ⟨.out ("[localbolt-cli] " ++ line), ()⟩

def complained (line : String) : Script.Event Op := ⟨.err ("[localbolt-cli] " ++ line), ()⟩

theorem wp_tell {line : String} {Q : Unit → Events → Prop} {past : Events}
    (h : Q () (past ++ [told line])) : (tell line).wp Q past := by
  rintro ⟨⟩
  exact h

theorem wp_complain {line : String} {Q : Unit → Events → Prop} {past : Events}
    (h : Q () (past ++ [complained line])) : (complain line).wp Q past := by
  rintro ⟨⟩
  exact h

def sigterm (pid : UInt32) : Script.Event Op := ⟨.processTerminate pid, ()⟩

def sigkill (pid : UInt32) : Script.Event Op := ⟨.processForceKill pid, ()⟩

end Cli

end LocalBolt

import LocalBolt.Cli.Lemmas.Commands

/-!
This module contains that `send` hands over its file at most once, whatever the system answers.
-/

namespace LocalBolt

namespace Cli

/-! ### What is looked at -/

def sentPath : Value → Option String
  | .object [("file_path", .string path)] => some path
  | _ => none

/--
The file that is handed over: a `file.send` or a signal file that was written without an error.
-/
def handedOver : Script.Event Op → Option String
  | ⟨.writeMessage msg, none⟩ => if msg.msgType = "file.send" then sentPath msg.payload else none
  | ⟨.writeFile _ path, none⟩ => some path
  | _ => none

def handedOvers (h : Events) : List String := h.filterMap handedOver

theorem handedOvers_append (h h' : Events) : handedOvers (h ++ h') = handedOvers h ++ handedOvers h' := by
  apply List.filterMap_append

def message : Script.Event Op → Option (IpcMessage Value × Option String)
  | ⟨.writeMessage msg, result⟩ => some (msg, result)
  | _ => none

/--
The messages that are written, with the errors of these writes.
-/
def messages (h : Events) : List (IpcMessage Value × Option String) := h.filterMap message

theorem messages_append (h h' : Events) : messages (h ++ h') = messages h ++ messages h' := by
  apply List.filterMap_append

/-! ### Sending a file -/

/--
What has been done about a path that names a file: the messages that were written, and what was handed over.
-/
structure Sent (filePath path : String) (asked : List (IpcMessage Value × Option String))
    (handed : List String) (h : Events) : Prop where
  hpath : ⟨.canonicalize filePath, .ok path⟩ ∈ h
  hfile : ⟨.isFile path, true⟩ ∈ h
  hasked : messages h = asked
  hhanded : handedOvers h = handed

theorem Sent.snoc {filePath path : String} {asked asked' : List (IpcMessage Value × Option String)}
    {handed handed' : List String} {h : Events} (hsent : Sent filePath path asked handed h)
    (e : Script.Event Op) (hasked : asked ++ messages [e] = asked')
    (hhanded : handed ++ handedOvers [e] = handed') : Sent filePath path asked' handed' (h ++ [e]) where
  hpath := List.mem_append_left _ hsent.hpath
  hfile := List.mem_append_left _ hsent.hfile
  hasked := by rw [messages_append, hsent.hasked, hasked]
  hhanded := by rw [handedOvers_append, hsent.hhanded, hhanded]

theorem Sent.told {filePath path : String} {asked : List (IpcMessage Value × Option String)}
    {handed : List String} {h : Events} (hsent : Sent filePath path asked handed h) (line : String)
    : Sent filePath path asked handed (h ++ [told line]) := by
  exact hsent.snoc _ (List.append_nil asked) (List.append_nil handed)

theorem Sent.complained {filePath path : String} {asked : List (IpcMessage Value × Option String)}
    {handed : List String} {h : Events} (hsent : Sent filePath path asked handed h) (line : String)
    : Sent filePath path asked handed (h ++ [complained line]) := by
  exact hsent.snoc _ (List.append_nil asked) (List.append_nil handed)

/--
The messages that ask for a file: a request follows only a handshake that was written.
-/
inductive Asks (path : String) : List (IpcMessage Value × Option String) → Prop where
  | nothing : Asks path []
  | refused (e : String) : Asks path [(versionHandshake, some e)]
  | asked (result : Option String) : Asks path [(versionHandshake, none), (fileSend path, result)]

/--
The file has been handed over once, or else the command fails.
-/
def Handled (filePath path : String) (status : Nat) (h : Events) : Prop :=
  ∃ asked, Asks path asked
    ∧ (status = 0 ∧ Sent filePath path asked [path] h ∨ status = 1 ∧ Sent filePath path asked [] h)

theorem wp_writeSignalFile (cfg : Config) {filePath path : String}
    {asked : List (IpcMessage Value × Option String)} {past : Events} (hasks : Asks path asked)
    (hsent : Sent filePath path asked [] past)
    : (writeSignalFile cfg path).wp (Handled filePath path) past := by
  unfold writeSignalFile
  simp only [Script.wp_bind, Script.wp_perform]
  apply wp_tell
  intro result
  have htold := hsent.told ("writing signal file: " ++ (cfg.dataDir ++ "/send_file.signal"))
  cases result with
  | none =>
    have hwritten := htold.snoc ⟨.writeFile (cfg.dataDir ++ "/send_file.signal") path, none⟩
      (List.append_nil asked) rfl
    simp only [Script.wp_bind]
    apply wp_tell
    exact ⟨asked, hasks, .inl ⟨rfl, hwritten.told _⟩⟩
  | some e =>
    have hwritten := htold.snoc ⟨.writeFile (cfg.dataDir ++ "/send_file.signal") path, some e⟩
      (List.append_nil asked) rfl
    simp only [Script.wp_bind]
    apply wp_complain
    exact ⟨asked, hasks, .inr ⟨rfl, hwritten.complained _⟩⟩

theorem wp_sendOverIpc (cfg : Config) {filePath path : String} {past : Events}
    (hsent : Sent filePath path [] [] past)
    : (sendOverIpc cfg path).wp (Handled filePath path) past := by
  unfold sendOverIpc
  simp only [Script.wp_bind, Script.wp_perform]
  apply wp_tell
  intro connected
  have hconnected := (hsent.told ("sending via IPC: " ++ path)).snoc ⟨.connect cfg.socketPath, connected⟩ rfl rfl
  cases connected with
  | some e =>
    simp only [Script.wp_bind]
    apply wp_complain
    exact ⟨[], .nothing, .inr ⟨rfl, hconnected.complained _⟩⟩
  | none =>
    simp only [Script.wp_bind, Script.wp_perform]
    intro cloned
    have hcloned := hconnected.snoc ⟨.tryClone, cloned⟩ rfl rfl
    cases cloned with
    | some e =>
      simp only [Script.wp_bind]
      apply wp_complain
      exact ⟨[], .nothing, .inr ⟨rfl, hcloned.complained _⟩⟩
    | none =>
      simp only [Script.wp_bind, Script.wp_perform]
      intro greeted
      cases greeted with
      | some e =>
        have hgreeted := hcloned.snoc ⟨.writeMessage versionHandshake, some e⟩ rfl rfl
        simp only [Script.wp_bind]
        apply wp_complain
        exact ⟨_, .refused e, .inr ⟨rfl, hgreeted.complained _⟩⟩
      | none =>
        have hgreeted := hcloned.snoc ⟨.writeMessage versionHandshake, none⟩ rfl rfl
        simp only [Script.wp_bind, Script.wp_perform]
        intro result
        cases result with
        | some e =>
          have hasked := hgreeted.snoc ⟨.writeMessage (fileSend path), some e⟩ rfl rfl
          simp only [Script.wp_bind]
          apply wp_complain
          apply wp_complain
          exact wp_writeSignalFile cfg (.asked (some e)) ((hasked.complained _).complained _)
        | none =>
          have hasked := hgreeted.snoc ⟨.writeMessage (fileSend path), none⟩ rfl rfl
          simp only [Script.wp_bind]
          apply wp_tell
          exact ⟨_, .asked none, .inl ⟨rfl, hasked.told _⟩⟩

/-! ### The command -/

/--
What `send` has done: it writes nothing where the path does not name a file.
-/
def SendRun (filePath : String) (status : Nat) (h : Events) : Prop :=
  (status = 1 ∧ messages h = [] ∧ handedOvers h = []) ∨ ∃ path, Handled filePath path status h

theorem wp_cmdSend (cfg : Config) (filePath : String) : (cmdSend cfg filePath).wp (SendRun filePath) [] := by
  unfold cmdSend
  simp only [Script.wp_bind, Script.wp_perform]
  intro resolved
  cases resolved with
  | error e =>
    simp only [Script.wp_bind]
    apply wp_complain
    exact .inl ⟨rfl, rfl, rfl⟩
  | ok path =>
    simp only [Script.wp_bind, Script.wp_perform]
    intro file
    cases file with
    | false =>
      rw [if_neg Bool.false_ne_true]
      simp only [Script.wp_bind]
      apply wp_complain
      exact .inl ⟨rfl, rfl, rfl⟩
    | true =>
      rw [if_pos rfl]
      simp only [Script.wp_bind, Script.wp_perform]
      intro running
      have hsent : Sent filePath path [] []
          ([⟨.canonicalize filePath, .ok path⟩] ++ [⟨.isFile path, true⟩] ++ [⟨.probe cfg.socketPath, running⟩]) := by
        refine ⟨.head _, .tail _ (.head _), rfl, rfl⟩
      cases running with
      | false =>
        rw [if_neg Bool.false_ne_true]
        apply Script.wp_mono (wp_writeSignalFile cfg .nothing hsent)
        exact fun status h hhandled => .inr ⟨path, hhandled⟩
      | true =>
        rw [if_pos rfl]
        apply Script.wp_mono (wp_sendOverIpc cfg hsent)
        exact fun status h hhandled => .inr ⟨path, hhandled⟩

end Cli

end LocalBolt

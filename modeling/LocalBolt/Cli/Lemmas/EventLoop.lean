import LocalBolt.Cli.Impl.EventLoop
import LocalBolt.Cli.Lemmas.HandleEvent

/-!
This module contains which messages of the daemon the loop sees.
-/

namespace LocalBolt

namespace Cli

namespace Read

/--
The bytes that a read delivers.
-/
def bytes : Read → List UInt8
  | .data byte more => byte :: more
  | _ => []

def isTimeout : Read → Bool
  | .wouldBlock | .timedOut => true
  | _ => false

/--
The stream neither fails nor ends.
-/
def isOpen : Read → Bool
  | .data _ _ | .wouldBlock | .timedOut => true
  | _ => false

end Read

def delivered (reads : List Read) : List UInt8 := reads.flatMap Read.bytes

/--
The lines of the daemon as it writes them.
-/
def written (lines : List String) : List UInt8 :=
  lines.flatMap fun line => Utf8.encode line ++ [BufRead.newline]

/--
The message of a line without its end, if it is not blank and well-formed.
-/
def message? (env : Env) (line : String) : Option (IpcMessage Value) :=
  if (trim line).isEmpty then none
  else
    match env.fromStr line with
    | .ok msg => some msg
    | .error _ => none

/--
The message in the bytes up to a newline. A carriage return before it belongs to the end of the line.
-/
def messageOf (env : Env) (bytes : List UInt8) : Option (IpcMessage Value) :=
  (Utf8.decode? (BufRead.stripCr bytes)).bind (message? env)

/--
The messages passed to `handle_event` are those of the lines that have arrived whole.
-/
def SeesAll (env : Env) (lines : List String) (reads : List Read) : Prop :=
  (EventLoop.run env reads).passed.map Prod.fst
    =
  (lines.take (Lines.complete BufRead.newline (delivered reads)).length).filterMap
    fun line => messageOf env (Utf8.encode line)

/--
A read times out only when all that has arrived are whole lines.
-/
def TimeoutsBetweenLines (reads : List Read) : Prop :=
  ∀ before read after, reads = before ++ read :: after → read.isTimeout = true →
    Lines.pending BufRead.newline (delivered before) = []

/-! ### Lines that are text -/

/--
A byte below 0x80 in the encoding of a character is that character.
-/
theorem eq_of_ascii_byte {c : Char} {byte : UInt8} (h : byte ∈ String.utf8EncodeChar c)
    (hbyte : byte.toNat < 0x80) : String.utf8EncodeChar c = [byte] ∧ c.toNat = byte.toNat := by
  have hc : c.toNat < 0x80 := by
    by_contra hge
    have hle := (Utf8.toNat_of_mem_utf8EncodeChar h).2 (Nat.le_of_not_lt hge)
    omega
  have hencoded := Utf8.utf8EncodeChar_ascii hc
  rw [hencoded, List.mem_singleton] at h
  exact ⟨by rw [hencoded, h], by rw [h, Utf8.toNat_byte hc]⟩

theorem decode?_stripCr_encode (line : String)
    : ∃ line', Utf8.decode? (BufRead.stripCr (Utf8.encode line)) = some line' := by
  unfold BufRead.stripCr
  split
  . next hlast =>
    cases hline : line.toList using List.reverseRecOn with
    | nil => simp [Utf8.encode, hline] at hlast
    | append_singleton text c =>
      have hencode : Utf8.encode line
          = text.flatMap String.utf8EncodeChar ++ String.utf8EncodeChar c := by
        rw [Utf8.encode, hline, List.flatMap_append, List.flatMap_singleton]
      have hmem : BufRead.carriageReturn ∈ String.utf8EncodeChar c := by
        rw [hencode, List.getLast?_append_of_ne_nil _ String.utf8EncodeChar_ne_nil] at hlast
        exact List.mem_of_getLast? hlast
      rw [hencode, (eq_of_ascii_byte hmem (by decide)).1, List.dropLast_concat]
      exact ⟨.ofList text, Utf8.decode?_eq_some_iff.mpr (by rw [Utf8.encode, String.toList_ofList])⟩
  . exact ⟨line, Utf8.decode?_encode line⟩

theorem newline_not_mem_encode {line : String} (h : '\n' ∉ line.toList)
    : BufRead.newline ∉ Utf8.encode line := by
  intro hmem
  obtain ⟨c, hc, hbyte⟩ := List.mem_flatMap.mp hmem
  have heq : c = '\n' := Char.toNat_inj.mp (eq_of_ascii_byte hbyte (by decide)).2
  exact h (heq ▸ hc)

theorem cut_written {lines : List String} (h : ∀ line ∈ lines, '\n' ∉ line.toList)
    : Lines.cut BufRead.newline [] (written lines) = (lines.map Utf8.encode, []) := by
  have hlines : ∀ bytes ∈ lines.map Utf8.encode, BufRead.newline ∉ bytes := by
    intro bytes hbytes
    obtain ⟨line, hline, rfl⟩ := List.mem_map.mp hbytes
    exact newline_not_mem_encode (h line hline)
  have hwritten : written lines = (lines.map Utf8.encode).flatMap (· ++ [BufRead.newline]) := by
    rw [written, List.flatMap_map]
  rw [hwritten, Lines.cut_flatMap hlines]

theorem complete_written {lines : List String} (h : ∀ line ∈ lines, '\n' ∉ line.toList)
    : Lines.complete BufRead.newline (written lines) = lines.map Utf8.encode := by
  rw [Lines.complete, cut_written h]

theorem pending_written {lines : List String} (h : ∀ line ∈ lines, '\n' ∉ line.toList)
    : Lines.pending BufRead.newline (written lines) = [] := by
  rw [Lines.pending, cut_written h]

/--
What has arrived whole of the lines are the first ones.
-/
theorem complete_of_prefix {lines : List String} (h : ∀ line ∈ lines, '\n' ∉ line.toList)
    {stream : List UInt8} (hstream : stream <+: written lines)
    : Lines.complete BufRead.newline stream
        =
      (lines.take (Lines.complete BufRead.newline stream).length).map Utf8.encode := by
  obtain ⟨more, hmore⟩ := hstream
  have hprefix : Lines.complete BufRead.newline stream <+: lines.map Utf8.encode := by
    rw [← complete_written h, ← hmore, Lines.complete_append]
    exact List.prefix_append _ _
  rw [List.map_take]
  exact List.prefix_iff_eq_take.mp hprefix

/-! ### One read -/

section

variable {env : Env}

theorem pass_fst {s : EventLoop} (hrunning : s.running = true) (msg : IpcMessage Value)
    : (s.pass env msg).passed.map Prod.fst = s.passed.map Prod.fst ++ [msg] := by
  simp [EventLoop.pass, hrunning]

theorem running_pass (henv : env.Serializes) {s : EventLoop} (hrunning : s.running = true)
    {msg : IpcMessage Value} (hmsg : ¬SplitsCharacter msg) : (s.pass env msg).running = true := by
  simp [EventLoop.pass, hrunning, (handleEvent_returns_iff henv s.console msg).mpr hmsg]

theorem nextLine_passed (henv : env.Serializes) {s : EventLoop} (hrunning : s.running = true)
    {line : String} (hmsg : ∀ msg, message? env line = some msg → ¬SplitsCharacter msg)
    : (s.nextLine env line).running = true ∧
        (s.nextLine env line).passed.map Prod.fst = s.passed.map Prod.fst ++ (message? env line).toList := by
  unfold EventLoop.nextLine
  rw [if_pos hrunning]
  unfold message? at hmsg ⊢
  split
  . exact ⟨hrunning, by simp⟩
  . next hblank =>
    rw [if_neg hblank] at hmsg
    cases hparse : env.fromStr line with
    | ok msg =>
      rw [hparse] at hmsg
      exact ⟨running_pass henv hrunning (hmsg msg rfl), pass_fst hrunning msg⟩
    | error e => exact ⟨hrunning, (List.append_nil _).symm⟩

/--
Bytes up to a newline that are text and do not make the client panic.
-/
def Harmless (env : Env) (bytes : List UInt8) : Prop :=
  (∃ line, Utf8.decode? (BufRead.stripCr bytes) = some line) ∧
    ∀ msg, messageOf env bytes = some msg → ¬SplitsCharacter msg

theorem foldl_nextBytes_passed (henv : env.Serializes) {s : EventLoop} (hrunning : s.running = true)
    {lines : List (List UInt8)} (h : ∀ bytes ∈ lines, Harmless env bytes)
    : ((lines.map BufRead.stripCr).foldl (EventLoop.nextBytes env) s).running = true ∧
        ((lines.map BufRead.stripCr).foldl (EventLoop.nextBytes env) s).passed.map Prod.fst
          =
        s.passed.map Prod.fst ++ lines.filterMap (messageOf env) := by
  induction lines generalizing s with
  | nil => exact ⟨hrunning, by simp⟩
  | cons bytes lines ih =>
    obtain ⟨⟨⟨line, hline⟩, hmsg⟩, hlines⟩ := List.forall_mem_cons.mp h
    have hmessage : messageOf env bytes = message? env line := by
      rw [messageOf, hline, Option.bind_some]
    have hnext : s.nextBytes env (BufRead.stripCr bytes) = s.nextLine env line := by
      rw [EventLoop.nextBytes, hline]
    rw [hmessage] at hmsg
    obtain ⟨hrunning', hpassed⟩ := nextLine_passed henv hrunning hmsg
    rw [List.map_cons, List.foldl_cons, hnext]
    obtain ⟨hrun, hall⟩ := ih hrunning' hlines
    refine ⟨hrun, ?_⟩
    have hcons : (bytes :: lines).filterMap (messageOf env)
        = (message? env line).toList ++ lines.filterMap (messageOf env) := by
      rw [List.filterMap_cons, hmessage]
      cases message? env line with
      | none => rfl
      | some msg => rfl
    rw [hall, hpassed, List.append_assoc, hcons]

/-! ### A run -/

/--
What the loop has seen of the lines after `reads`.
-/
structure Seen (env : Env) (reads : List Read) : Prop where
  running : (EventLoop.run env reads).running = true
  line : (EventLoop.run env reads).line = Lines.pending BufRead.newline (delivered reads)
  passed : (EventLoop.run env reads).passed.map Prod.fst
    = (Lines.complete BufRead.newline (delivered reads)).filterMap (messageOf env)

theorem run_append (reads : List Read) (read : Read)
    : EventLoop.run env (reads ++ [read]) = (EventLoop.run env reads).next env read := by
  rw [EventLoop.run, List.foldl_append]
  rfl

theorem delivered_append (reads : List Read) (read : Read)
    : delivered (reads ++ [read]) = delivered reads ++ read.bytes := by
  rw [delivered, List.flatMap_append, List.flatMap_singleton]
  rfl

theorem timeoutsBetweenLines_concat {reads : List Read} {read : Read}
    : TimeoutsBetweenLines (reads ++ [read]) ↔ TimeoutsBetweenLines reads ∧
        (read.isTimeout = true → Lines.pending BufRead.newline (delivered reads) = []) := by
  constructor
  . intro h
    refine ⟨fun before read' after hsplit => ?_, h reads read [] rfl⟩
    apply h before read' (after ++ [read])
    rw [hsplit, List.append_assoc, List.cons_append]
  . rintro ⟨hreads, hread⟩ before read' after hsplit htimeout
    cases after using List.reverseRecOn with
    | nil =>
      obtain ⟨rfl, heq⟩ := List.append_inj' hsplit rfl
      rw [List.cons.injEq] at heq
      exact hread (heq.1 ▸ htimeout)
    | append_singleton after last =>
      rw [← List.cons_append, ← List.append_assoc] at hsplit
      exact hreads before read' after (List.append_inj' hsplit rfl).1 htimeout

theorem Seen.data (henv : env.Serializes) {reads : List Read} (hseen : Seen env reads) (byte : UInt8)
    (more : List UInt8)
    (h : ∀ bytes ∈ Lines.complete BufRead.newline (delivered (reads ++ [.data byte more])),
      Harmless env bytes)
    : Seen env (reads ++ [.data byte more]) := by
  have hbytes : delivered (reads ++ [.data byte more]) = delivered reads ++ byte :: more :=
    delivered_append reads (.data byte more)
  rw [hbytes, Lines.complete_append, List.forall_mem_append] at h
  obtain ⟨hrunning, hpassed⟩ := foldl_nextBytes_passed henv hseen.running h.2
  refine ⟨?_, ?_, ?_⟩
  . rw [run_append, EventLoop.next, hseen.line]
    exact hrunning
  . rw [run_append, EventLoop.next, hseen.line, hbytes, Lines.pending_append]
  . rw [run_append, EventLoop.next, hseen.line, hbytes, Lines.complete_append, List.filterMap_append,
      ← hseen.passed]
    exact hpassed

theorem Seen.timeout {reads : List Read} (hseen : Seen env reads) {read : Read}
    (hread : read.isTimeout = true) (h : Lines.pending BufRead.newline (delivered reads) = [])
    : Seen env (reads ++ [read]) := by
  have hnext : (EventLoop.run env reads).next env read = { EventLoop.run env reads with line := [] } := by
    cases read <;> first | rfl | cases hread
  have hbytes : delivered (reads ++ [read]) = delivered reads := by
    rw [delivered_append]
    cases read <;> first | exact List.append_nil _ | cases hread
  refine ⟨?_, ?_, ?_⟩
  . rw [run_append, hnext]
    exact hseen.running
  . rw [run_append, hnext, hbytes, h]
  . rw [run_append, hnext, hbytes]
    exact hseen.passed

theorem seen (henv : env.Serializes) {reads : List Read}
    (hopen : ∀ read ∈ reads, read.isOpen = true) (htimeouts : TimeoutsBetweenLines reads)
    (h : ∀ bytes ∈ Lines.complete BufRead.newline (delivered reads), Harmless env bytes)
    : Seen env reads := by
  induction reads using List.reverseRecOn with
  | nil => exact ⟨rfl, rfl, rfl⟩
  | append_singleton reads read ih =>
    obtain ⟨hopen, hread⟩ := List.forall_mem_append.mp hopen
    obtain ⟨hbefore, htimeout⟩ := timeoutsBetweenLines_concat.mp htimeouts
    have hseen : Seen env reads := by
      apply ih hopen hbefore
      intro bytes hbytes
      apply h
      rw [delivered_append, Lines.complete_append]
      exact List.mem_append_left _ hbytes
    cases read with
    | data byte more => exact hseen.data henv byte more h
    | wouldBlock => exact hseen.timeout rfl (htimeout rfl)
    | timedOut => exact hseen.timeout rfl (htimeout rfl)
    | error e => exact absurd (hread _ (List.mem_singleton_self _)) Bool.false_ne_true
    | eof => exact absurd (hread _ (List.mem_singleton_self _)) Bool.false_ne_true

end

theorem sees_all {env : Env} (henv : env.Serializes) {lines : List String}
    (hlines : ∀ line ∈ lines, '\n' ∉ line.toList) {reads : List Read}
    (hopen : ∀ read ∈ reads, read.isOpen = true) (hdelivered : delivered reads <+: written lines)
    (htimeouts : TimeoutsBetweenLines reads)
    (hpanics : ∀ line ∈ lines, ∀ msg, messageOf env (Utf8.encode line) = some msg → ¬SplitsCharacter msg)
    : SeesAll env lines reads := by
  have hcomplete := complete_of_prefix hlines hdelivered
  have hseen : Seen env reads := by
    apply seen henv hopen htimeouts
    intro bytes hbytes
    rw [hcomplete] at hbytes
    obtain ⟨line, hline, rfl⟩ := List.mem_map.mp hbytes
    exact ⟨decode?_stripCr_encode line, hpanics line (List.mem_of_mem_take hline)⟩
  unfold SeesAll
  rw [hseen.passed]
  conv_lhs => rw [hcomplete]
  rw [List.filterMap_map]
  rfl

/-! ### Concrete runs -/

def chunk (bytes : List UInt8) : List Read :=
  match bytes with
  | [] => []
  | byte :: more => [.data byte more]

theorem delivered_chunk (bytes : List UInt8) : delivered (chunk bytes) = bytes := by
  cases bytes with
  | nil => rfl
  | cons byte more => exact List.append_nil _

theorem isOpen_chunk (bytes : List UInt8) : ∀ read ∈ chunk bytes, read.isOpen = true := by
  cases bytes with
  | nil => exact List.forall_mem_nil _
  | cons byte more => exact List.forall_mem_singleton.mpr rfl

theorem timeoutsBetweenLines_nil : TimeoutsBetweenLines [] := by
  intro before read after h
  simp at h

theorem timeoutsBetweenLines_chunk (bytes : List UInt8) : TimeoutsBetweenLines (chunk bytes) := by
  cases bytes with
  | nil => exact timeoutsBetweenLines_nil
  | cons byte more =>
    have hdata : (Read.data byte more).isTimeout ≠ true := Bool.false_ne_true
    exact timeoutsBetweenLines_concat.mpr ⟨timeoutsBetweenLines_nil, fun h => absurd h hdata⟩

theorem foldl_chunk (env : Env) (s : EventLoop) (bytes : List UInt8)
    : (chunk bytes).foldl (EventLoop.next env) s
        =
      { ((Lines.cut BufRead.newline s.line bytes).1.map BufRead.stripCr).foldl (EventLoop.nextBytes env) s
        with line := (Lines.cut BufRead.newline s.line bytes).2 } := by
  cases bytes with
  | nil => rfl
  | cons byte more => rfl

theorem delivered_chunks (bytes bytes' : List UInt8)
    : delivered (chunk bytes ++ [.timedOut] ++ chunk bytes') = bytes ++ bytes' := by
  have hbytes : Read.timedOut.bytes = [] := rfl
  have hlast : delivered (chunk bytes ++ [.timedOut] ++ chunk bytes')
      = delivered (chunk bytes ++ [.timedOut]) ++ delivered (chunk bytes') :=
    List.flatMap_append
  rw [hlast, delivered_append, delivered_chunk, delivered_chunk, hbytes, List.append_nil]

/--
After a timeout inside a line the rest of it is taken for a line.
-/
theorem passed_after_timeout (env : Env) {first rest : String} (hfirst : '\n' ∉ first.toList)
    (hrest : '\n' ∉ rest.toList)
    : (EventLoop.run env (chunk (Utf8.encode first) ++ [.timedOut] ++
          chunk (Utf8.encode rest ++ [BufRead.newline]))).passed
        =
      (EventLoop.start.nextBytes env (BufRead.stripCr (Utf8.encode rest))).passed := by
  have hreset : EventLoop.run env (chunk (Utf8.encode first) ++ [.timedOut]) = .start := by
    rw [run_append, EventLoop.run, foldl_chunk, EventLoop.start,
      Lines.cut_of_not_mem (newline_not_mem_encode hfirst)]
    rfl
  rw [EventLoop.run, List.foldl_append, ← EventLoop.run, hreset, foldl_chunk, EventLoop.start,
    Lines.cut_cons_line _ (newline_not_mem_encode hrest)]
  rfl

def pausedLine : String := "\x7b\"msg_type\":\"transfer.paused\"\x7d"

def transferPaused : IpcMessage Value where
  msgType := "transfer.paused"
  kind := .event
  payload := .object []

theorem messageOf_pausedLine
    : messageOf (Env.plain [] [(pausedLine, transferPaused)]) (Utf8.encode pausedLine)
        =
      some transferPaused := by
  have hstrip : BufRead.stripCr (Utf8.encode pausedLine) = Utf8.encode pausedLine := by
    simp [BufRead.stripCr, BufRead.carriageReturn, Utf8.encode, pausedLine, String.utf8EncodeChar]
  have htext : (trim pausedLine).isEmpty = false := by simp [trim, isWhitespace, pausedLine]
  rw [messageOf, hstrip, Utf8.decode?_encode]
  simp [message?, htext, Env.plain]

theorem paused_is_seen
    : SeesAll (Env.plain [] [(pausedLine, transferPaused)]) [pausedLine]
        (chunk (written [pausedLine]) ++ [.wouldBlock]) := by
  have hnewline : ∀ line ∈ [pausedLine], '\n' ∉ line.toList := by simp [pausedLine]
  apply sees_all (serializes_plain _ _) hnewline
  . exact List.forall_mem_append.mpr ⟨isOpen_chunk _, List.forall_mem_singleton.mpr rfl⟩
  . have hbytes : Read.wouldBlock.bytes = [] := rfl
    rw [delivered_append, delivered_chunk, hbytes, List.append_nil]
  . apply timeoutsBetweenLines_concat.mpr
    refine ⟨timeoutsBetweenLines_chunk _, fun _ => ?_⟩
    rw [delivered_chunk]
    exact pending_written hnewline
  . intro line hline msg hmsg
    rw [List.mem_singleton.mp hline, messageOf_pausedLine, Option.some.injEq] at hmsg
    rw [← hmsg]
    rintro ⟨htype, -⟩
    exact absurd htype (by decide)

theorem timeout_inside_line_loses_it
    : ¬SeesAll (Env.plain [] [(pausedLine, transferPaused)]) [pausedLine]
        (chunk (Utf8.encode "\x7b\"msg_type\":\"tran") ++ [.timedOut] ++
          chunk (Utf8.encode "sfer.paused\"\x7d" ++ [BufRead.newline])) := by
  have hrest : ((EventLoop.start).nextBytes (Env.plain [] [(pausedLine, transferPaused)])
      (BufRead.stripCr (Utf8.encode "sfer.paused\"\x7d"))).passed = [] := by
    have hstrip : BufRead.stripCr (Utf8.encode "sfer.paused\"\x7d") = Utf8.encode "sfer.paused\"\x7d" := by
      simp [BufRead.stripCr, BufRead.carriageReturn, Utf8.encode, String.utf8EncodeChar]
    have htext : (trim "sfer.paused\"\x7d").isEmpty = false := by simp [trim, isWhitespace]
    have hparse : (Env.plain [] [(pausedLine, transferPaused)]).fromStr "sfer.paused\"\x7d"
        = .error "expected value" := by
      have hne : ("sfer.paused\"\x7d" == pausedLine) = false := by simp [pausedLine]
      simp [Env.plain, List.lookup_cons, hne]
    rw [hstrip, EventLoop.nextBytes, Utf8.decode?_encode]
    simp [EventLoop.nextLine, EventLoop.start, htext, hparse]
  have hdelivered : delivered (chunk (Utf8.encode "\x7b\"msg_type\":\"tran") ++ [.timedOut] ++
      chunk (Utf8.encode "sfer.paused\"\x7d" ++ [BufRead.newline])) = written [pausedLine] := by
    have hline : pausedLine = "\x7b\"msg_type\":\"tran" ++ "sfer.paused\"\x7d" := by simp [pausedLine]
    rw [delivered_chunks, hline, written, List.flatMap_singleton, Utf8.encode_append, List.append_assoc]
  have hcount : (Lines.complete BufRead.newline (written [pausedLine])).length = 1 := by
    rw [complete_written (by simp [pausedLine])]
    rfl
  unfold SeesAll
  rw [passed_after_timeout _ (by simp) (by simp), hrest, hdelivered, hcount]
  simp [messageOf_pausedLine]

end Cli

end LocalBolt

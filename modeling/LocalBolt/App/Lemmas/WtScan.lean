import LocalBolt.App.Impl.WtMonitor

/-!
This module contains what the daemon manager reads off the tail of the log: one line at a time, and in
terms of the lines of the log themselves.
-/

namespace LocalBolt

theorem isSome_isPrefixOf? {needle text : List Char} :
    (needle.isPrefixOf? text).isSome = true ↔ needle <+: text := by
  induction needle generalizing text with
  | nil => simp [List.isPrefixOf?]
  | cons c needle ih =>
    cases text with
    | nil => simp [List.isPrefixOf?]
    | cons c' text =>
      rw [List.isPrefixOf?, List.cons_prefix_cons, ← ih]
      by_cases hc : c = c'
      . simp [hc]
      . simp [hc]

theorem isSome_afterFirst? {needle text : List Char} :
    (afterFirst? needle text).isSome = true ↔ needle <:+: text := by
  induction text with
  | nil => rw [afterFirst?, isSome_isPrefixOf?, List.prefix_nil, List.infix_nil]
  | cons c text ih =>
    rw [afterFirst?, List.infix_cons_iff, ← ih, ← isSome_isPrefixOf?]
    cases needle.isPrefixOf? (c :: text) with
    | none => simp
    | some rest => simp

theorem containsText_iff {line needle : String} :
    containsText line needle = true ↔ needle.toList <:+: line.toList := by
  rw [containsText, rangeOf, Option.isSome_map, isSome_afterFirst?]

namespace WtScan

/--
The lifecycle token of a line, where a registered session is looked for first.
-/
def lifecycle? (line : String) : Option Bool :=
  if containsText line WtLog.registered then some true
  else if containsText line WtLog.cleared then some false
  else none

/--
The SAS of a line.
-/
def sas? (line : String) : Option String :=
  (rangeOf "[SAS] " line).bind fun rest =>
    let candidate := rest.toList.take 6
    if candidate.length = 6 then some (String.ofList candidate) else none

theorem scanSas_eq (scan : WtScan) (line : String) :
    scan.scanSas line = { scan with pendingSas := (sas? line).or scan.pendingSas } := by
  unfold scanSas sas?
  cases rangeOf "[SAS] " line with
  | none => rfl
  | some rest =>
    simp only [Option.bind_some]
    split <;> rfl

theorem scanLine_eq (scan : WtScan) (line : String)
    : scan.scanLine line
        =
      { latestWtLifecycle := (lifecycle? line).or scan.latestWtLifecycle
        pendingSas := (sas? line).or scan.pendingSas
        latestRegisteredSas :=
          match lifecycle? line with
          | some true => (sas? line).or scan.pendingSas
          | some false => none
          | none => scan.latestRegisteredSas } := by
  rw [scanLine, scanSas_eq, lifecycle?, WtLog.registered, WtLog.cleared]
  dsimp only
  split
  . rfl
  . split <;> rfl

theorem latestWtLifecycle_foldl (lines : List String) :
    (lines.foldl scanLine {}).latestWtLifecycle = (lines.filterMap lifecycle?).getLast? := by
  induction lines using List.reverseRecOn with
  | nil => rfl
  | append_singleton lines line ih =>
    rw [List.foldl_append, List.foldl_cons, List.foldl_nil, scanLine_eq, ih, List.filterMap_append,
      List.getLast?_append]
    cases h : lifecycle? line <;> simp [h]

theorem pendingSas_foldl (lines : List String) :
    (lines.foldl scanLine {}).pendingSas = (lines.filterMap sas?).getLast? := by
  induction lines using List.reverseRecOn with
  | nil => rfl
  | append_singleton lines line ih =>
    rw [List.foldl_append, List.foldl_cons, List.foldl_nil, scanLine_eq, ih, List.filterMap_append,
      List.getLast?_append]
    cases h : sas? line <;> simp [h]

/--
The SAS the scan keeps is the last one up to the latest registered session, of whichever session it is.
-/
theorem latestRegisteredSas_foldl {lines : List String}
    (h : (lines.foldl scanLine {}).latestWtLifecycle = some true)
    : (lines.foldl scanLine {}).latestRegisteredSas
        =
      ((lines.rdropWhile fun line => lifecycle? line ≠ some true).filterMap sas?).getLast? := by
  induction lines using List.reverseRecOn with
  | nil => simp at h
  | append_singleton lines line ih =>
    rw [List.foldl_append, List.foldl_cons, List.foldl_nil, scanLine_eq] at h ⊢
    rw [List.rdropWhile_concat]
    cases hline : lifecycle? line with
    | none =>
      simp only [hline, Option.none_or] at h
      simpa [hline] using ih h
    | some active =>
      cases active with
      | false => simp [hline] at h
      | true =>
        simp only [pendingSas_foldl]
        rw [if_neg (by simp), List.filterMap_append, List.getLast?_append]
        cases hsas : sas? line <;> simp [hsas]

theorem splitLines_eq (text : String) : splitLines text = (Framing.split text).filter (· ≠ "") := by
  rw [splitLines, Framing.split, List.filter_map]
  congr 1
  apply List.filter_congr
  intro line _
  simp

/--
The tail is scanned as the lines it was joined from.
-/
theorem ofTail_joinLines {lines : List String} (h : ∀ line ∈ lines, Framing.IsLine line) :
    ofTail (Framing.joinLines lines) = lines.foldl scanLine {} := by
  have hempty : ∀ scan : WtScan, scan.scanLine "" = scan := by
    intro scan
    rw [scanLine_eq, show lifecycle? "" = none by decide, show sas? "" = none by decide]
    rfl
  have hfilter : ∀ (lines : List String) (scan : WtScan),
      (lines.filter (· ≠ "")).foldl scanLine scan = lines.foldl scanLine scan := by
    intro lines
    induction lines with
    | nil => simp
    | cons line lines ih =>
      intro scan
      by_cases hline : line = ""
      . rw [List.filter_cons_of_neg (by simp [hline]), ih, List.foldl_cons, hline, hempty]
      . rw [List.filter_cons_of_pos (by simp [hline]), List.foldl_cons, ih, List.foldl_cons]
  rw [ofTail, splitLines_eq, hfilter]
  by_cases hlines : lines = []
  . rw [hlines]
    rfl
  . rw [Framing.split_joinLines hlines h]

end WtScan

/-! ### The lines as they were written -/

namespace WtLog

theorem tokens_encode (text : String) :
    tokens (Utf8.encode text) = Occurrence.occurrences lifecycleTokens text.toList := by
  apply Utf8.occurrences_reads (Utf8.reads_encode text) (by decide)
  have hascii : (lifecycleTokens.all fun p => p.1.all fun c => c.toNat < 0x80) = true := by decide
  simpa using hascii

theorem mem_tokens_encode (text : String)
    : (true ∈ tokens (Utf8.encode text) ↔ containsText text registered = true)
        ∧ (false ∈ tokens (Utf8.encode text) ↔ containsText text cleared = true) := by
  rw [tokens_encode, containsText_iff, containsText_iff]
  have hne : ∀ p ∈ lifecycleTokens, p.1 ≠ [] := by decide
  constructor <;>
  . rw [Occurrence.mem_occurrences_iff hne]
    simp [lifecycleTokens]

theorem isRegistered_encode (text : String) :
    isRegistered (Utf8.encode text) = decide (WtScan.lifecycle? text = some true) := by
  rw [isRegistered, decide_eq_decide, (mem_tokens_encode text).1, WtScan.lifecycle?]
  split
  . next h => simp [h]
  . next h => split <;> simp [h]

theorem isLifecycle_encode (text : String) :
    isLifecycle (Utf8.encode text) = (WtScan.lifecycle? text).isSome := by
  have hne : ∀ l : List Bool, l ≠ [] ↔ true ∈ l ∨ false ∈ l := by
    intro l
    cases l with
    | nil => simp
    | cons b l => cases b <;> simp
  rw [isLifecycle, Bool.eq_iff_iff, decide_eq_true_eq, hne, (mem_tokens_encode text).1, (mem_tokens_encode text).2,
    WtScan.lifecycle?]
  split
  . next h => simp [h]
  . next h => split <;> simp_all

/--
A session is registered and cleared on one line, in this order.
-/
def Mixed (line : List UInt8) : Prop := true ∈ tokens line ∧ (tokens line).getLast? = some false

instance : DecidablePred Mixed := fun line => by unfold Mixed; infer_instance

theorem lifecycle?_eq_getLast? {text : String} (h : ¬ Mixed (Utf8.encode text)) :
    WtScan.lifecycle? text = (tokens (Utf8.encode text)).getLast? := by
  obtain ⟨hregistered, hcleared⟩ := mem_tokens_encode text
  rw [Mixed, not_and] at h
  rw [WtScan.lifecycle?]
  simp only [← hregistered, ← hcleared]
  cases hlast : (tokens (Utf8.encode text)).getLast? with
  | none => simp [List.getLast?_eq_none_iff.mp hlast]
  | some active =>
    have hmem := List.mem_of_getLast? hlast
    cases active with
    | true => rw [if_pos hmem]
    | false =>
      have hnot : true ∉ tokens (Utf8.encode text) := fun htrue => h htrue hlast
      rw [if_neg hnot, if_pos hmem]

/--
Without such lines, what the scan finds last is what stands last.
-/
theorem getLast?_lifecycle {texts : List String} (h : ∀ text ∈ texts, ¬ Mixed (Utf8.encode text))
    : (texts.filterMap WtScan.lifecycle?).getLast?
        =
      ((texts.map Utf8.encode).flatMap tokens).getLast? := by
  induction texts using List.reverseRecOn with
  | nil => rfl
  | append_singleton texts text ih =>
    rw [List.forall_mem_append, List.forall_mem_singleton] at h
    have htext : ([text].filterMap WtScan.lifecycle?).getLast? = (tokens (Utf8.encode text)).getLast? := by
      rw [← lifecycle?_eq_getLast? h.2]
      cases hlifecycle : WtScan.lifecycle? text <;> simp [hlifecycle]
    rw [List.filterMap_append, List.getLast?_append, htext, ih h.1, List.map_append, List.flatMap_append,
      List.getLast?_append]
    simp

end WtLog

end LocalBolt

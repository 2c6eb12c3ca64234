import HarnessSphere.Library.Words
import HarnessSphere.Collectors.Container

/-! # The files of a cgroup

The kernel writes these files line by line: `io.stat` a device with its fields, `cpu.stat` and
`memory.events` a key with its value. A file is put together here from parts that carry what they are
made of, and the parsers read back what was put in.
-/

namespace HarnessSphere

section Rendering

/-- Spaces and tabs. -/
structure Blanks where
  chars : List Char
  nonempty : chars ≠ []
  blank : ∀ c ∈ chars, c = ' ' ∨ c = '\t'

structure Name extends Words.Word isWhitespace where
  noEquals : '=' ∉ chars

def decimal (n : UInt64) : List Char := Nat.toDigits 10 n.toNat

structure DeviceField where
  blanks : Blanks
  key : Name
  value : UInt64

structure Device where
  id : Name
  fields : List DeviceField

def DeviceField.text (f : DeviceField) : List Char := f.key.chars ++ '=' :: decimal f.value

def Device.line (d : Device) : List Char :=
  d.id.chars ++ d.fields.flatMap fun f => f.blanks.chars ++ f.text

/-- A line of `key value`, or one that the parser is to pass over. -/
inductive KvLine where
  | entry (key : Words.Word isWhitespace) (blanks : Blanks) (value : UInt64)
  | ignored (text : List Char) (oneLine : '\n' ∉ text)
      (noValue : (splitWhitespace text)[1]?.bind u64FromStr = none)

namespace KvLine

def line : KvLine → List Char
  | entry key blanks value => key.chars ++ (blanks.chars ++ decimal value)
  | ignored text _ _ => text

def entry? : KvLine → Option (String × UInt64)
  | entry key _ value => some (String.ofList key.chars, value)
  | ignored _ _ _ => none

end KvLine

/-- One line after the other, with a newline after the last one or without. -/
def file (rows : List (List Char)) (finalNewline : Bool) : List Char :=
  ['\n'].intercalate rows ++ if finalNewline then ['\n'] else []

def fieldTotal (key : String) (fields : List DeviceField) : Nat :=
  ((fields.filter fun f => f.key.chars = key.toList).map fun f => f.value.toNat).sum

/-- The sum of the values under a key, over all devices. -/
def ioTotal (key : String) (devices : List Device) : Nat :=
  fieldTotal key (devices.flatMap Device.fields)

end Rendering

section Words

theorem splitWhitespace_eq (text : List Char) : splitWhitespace text = Words.split isWhitespace text :=
  rfl

def Blanks.gap (r : Blanks) : Words.Gap isWhitespace where
  chars := r.chars
  nonempty := r.nonempty
  blank := by
    intro c hc
    obtain rfl | rfl := r.blank c hc <;> decide

theorem isWhitespace_of_isDigit {c : Char} (h : c.isDigit) : isWhitespace c = false := by
  simp only [Char.isDigit, Bool.and_eq_true, decide_eq_true_eq] at h
  have hLow : 48 ≤ c.toNat := h.1
  have hHigh : c.toNat ≤ 57 := h.2
  simp only [isWhitespace, List.mem_cons, List.not_mem_nil, or_false, decide_eq_false_iff_not]
  omega

theorem isDigit_of_mem_decimal {n : UInt64} {c : Char} (h : c ∈ decimal n) : c.isDigit :=
  Nat.isDigit_of_mem_toDigits (by decide) (by decide) h

def decimalWord (n : UInt64) : Words.Word isWhitespace where
  chars := decimal n
  nonempty := Nat.toDigits_ne_nil
  solid := fun _ hc => isWhitespace_of_isDigit (isDigit_of_mem_decimal hc)

theorem u64FromStr_digits {text : List Char} (hNe : text ≠ []) (hDigits : ∀ c ∈ text, c.isDigit) :
    u64FromStr text =
      if Nat.ofDigitChars 10 text 0 < 2 ^ 64 then some (UInt64.ofNat (Nat.ofDigitChars 10 text 0))
      else none := by
  have hAll : text.all Char.isDigit := List.all_eq_true.mpr hDigits
  rw [Nat.ofDigitChars_eq_foldl]
  unfold u64FromStr
  split
  · exact absurd (hDigits '+' List.mem_cons_self) (by decide)
  · exact if_neg (by simp [hNe, hAll])

theorem u64FromStr_decimal (n : UInt64) : u64FromStr (decimal n) = some n := by
  have hValue : Nat.ofDigitChars 10 (decimal n) 0 = n.toNat := Nat.ofDigitChars_ten_toDigits
  have hParse : u64FromStr (decimal n) = _ :=
    u64FromStr_digits (decimalWord n).nonempty fun _ hc => isDigit_of_mem_decimal hc
  rw [hParse, hValue, if_pos n.toNat_lt, UInt64.ofNat_toNat]

end Words

section Lines

theorem stripSuffix_eq_some {c : Char} {text line : List Char}
    (h : stripSuffix c text = some line) : text = line ++ [c] := by
  obtain ⟨hLast, rfl⟩ := (Option.ite_none_right_eq_some.mp h).imp_right Option.some.inj
  obtain ⟨front, rfl⟩ := List.getLast?_eq_some_iff.mp hLast
  rw [List.dropLast_concat]

theorem split_stripSuffix {c : Char} (hc : isWhitespace c) (text : List Char) :
    splitWhitespace ((stripSuffix c text).getD text) = splitWhitespace text := by
  cases h : stripSuffix c text with
  | none => rfl
  | some line =>
    rw [stripSuffix_eq_some h, splitWhitespace_eq, splitWhitespace_eq, Words.split_concat hc,
      Option.getD_some]

/-- What `str::lines` takes off a piece is whitespace. -/
theorem split_stripTerminator (piece : List Char) :
    splitWhitespace (stripTerminator piece) = splitWhitespace piece := by
  unfold stripTerminator
  cases h : stripSuffix '\n' piece with
  | none => rfl
  | some line =>
    have hNewline := split_stripSuffix (by decide : isWhitespace '\n') piece
    rw [h, Option.getD_some] at hNewline
    exact (split_stripSuffix (by decide) line).trans hNewline

theorem words_lines (text : List Char) :
    (lines text).map splitWhitespace = (Lines.splitInclusive '\n' text).map splitWhitespace := by
  rw [lines, List.map_map]
  exact List.map_congr_left fun piece _ => split_stripTerminator piece

theorem splitInclusive_row {row : List Char} (hRow : '\n' ∉ row) (rest : List Char) :
    Lines.splitInclusive '\n' (row ++ '\n' :: rest) =
      (row ++ ['\n']) :: Lines.splitInclusive '\n' rest := by
  obtain rfl | hNe := eq_or_ne row []
  · exact Lines.splitInclusive_terminator rest
  · rw [Lines.splitInclusive_free_append hRow hNe, Lines.splitInclusive_terminator]

theorem words_row {row : List Char} (hRow : '\n' ∉ row) (rest : List Char) :
    (lines (row ++ '\n' :: rest)).map splitWhitespace =
      splitWhitespace row :: (lines rest).map splitWhitespace := by
  rw [words_lines, words_lines, splitInclusive_row hRow, List.map_cons, splitWhitespace_eq,
    Words.split_concat (by decide), splitWhitespace_eq]

theorem words_last {row : List Char} (hRow : '\n' ∉ row) :
    ((lines row).map splitWhitespace).filter (· ≠ []) = [splitWhitespace row].filter (· ≠ []) := by
  obtain rfl | hNe := eq_or_ne row []
  · rfl
  · have hPiece := Lines.splitInclusive_free_append hRow hNe []
    rw [List.append_nil] at hPiece
    rw [words_lines, hPiece]
    rfl

/-- Up to lines without words, a file falls apart into its rows. -/
theorem words_file {rows : List (List Char)} (hRows : ∀ row ∈ rows, '\n' ∉ row)
    (finalNewline : Bool) :
    ((lines (file rows finalNewline)).map splitWhitespace).filter (· ≠ []) =
      (rows.map splitWhitespace).filter (· ≠ []) := by
  induction rows with
  | nil => cases finalNewline <;> rfl
  | cons row rows ih =>
    obtain ⟨hRow, hRest⟩ := List.forall_mem_cons.mp hRows
    cases rows with
    | nil =>
      cases finalNewline with
      | false =>
        have hFile : file [row] false = row := by
          rw [file, List.intercalate_singleton]
          exact List.append_nil row
        rw [hFile]
        exact words_last hRow
      | true =>
        have hFile : file [row] true = row ++ ['\n'] := by
          rw [file, List.intercalate_singleton, if_pos rfl]
        rw [hFile, words_row hRow]
        rfl
    | cons row' rows =>
      have hFile : file (row :: row' :: rows) finalNewline =
          row ++ '\n' :: file (row' :: rows) finalNewline := by
        rw [file, file, List.intercalate_cons_cons, List.append_assoc, List.append_assoc]
        rfl
      rw [hFile, words_row hRow, List.map_cons, List.filter_cons, List.filter_cons, ih hRest]

end Lines

section IoStat

def DeviceField.word (f : DeviceField) : Words.Word isWhitespace where
  chars := f.text
  nonempty := by simp [DeviceField.text]
  solid := by
    intro c hc
    simp only [DeviceField.text, List.mem_append, List.mem_cons] at hc
    rcases hc with hKey | rfl | hValue
    · exact f.key.solid c hKey
    · decide
    · exact (decimalWord f.value).solid c hValue

theorem splitWhitespace_line (d : Device) :
    splitWhitespace d.line = d.id.chars :: d.fields.map DeviceField.text :=
  Words.split_flatMap (fun f : DeviceField => f.blanks.gap) DeviceField.word d.id.toWord d.fields

/-- The loop body of `parse_io_stat`. -/
def ioField (sums : UInt64 × UInt64) (field : List Char) : UInt64 × UInt64 :=
  match stripPrefix "rbytes=".toList field, stripPrefix "wbytes=".toList field with
  | some v, _ => (sums.1 + (u64FromStr v).getD 0, sums.2)
  | none, some v => (sums.1, sums.2 + (u64FromStr v).getD 0)
  | none, none => sums

theorem parseIoStat_eq (content : List Char) :
    parseIoStat content = ((lines content).flatMap splitWhitespace).foldl ioField (0, 0) := rfl

theorem stripPrefix_of_noEquals (key : List Char) {text : List Char} (h : '=' ∉ text) :
    stripPrefix (key ++ ['=']) text = none := by
  refine if_neg fun hPrefix => h ?_
  obtain ⟨rest, rfl⟩ := List.isPrefixOf_iff_prefix.mp hPrefix
  simp

theorem stripPrefix_field {key key' : List Char} (hKey : '=' ∉ key) (hKey' : '=' ∉ key')
    (value : List Char) :
    stripPrefix (key ++ ['=']) (key' ++ '=' :: value) = if key' = key then some value else none := by
  unfold stripPrefix
  split_ifs with hPrefix hEq hEq
  · subst hEq
    simp
  · obtain ⟨rest, hRest⟩ := List.isPrefixOf_iff_prefix.mp hPrefix
    rw [List.append_assoc, List.singleton_append] at hRest
    exact absurd (Words.cut hKey hKey' hRest).1.symm hEq
  · subst hEq
    exact absurd (List.isPrefixOf_iff_prefix.mpr ⟨value, by simp⟩) hPrefix
  · rfl

theorem ioField_id (sums : UInt64 × UInt64) (d : Device) : ioField sums d.id.chars = sums := by
  have hR : stripPrefix "rbytes=".toList d.id.chars = none :=
    stripPrefix_of_noEquals "rbytes".toList d.id.noEquals
  have hW : stripPrefix "wbytes=".toList d.id.chars = none :=
    stripPrefix_of_noEquals "wbytes".toList d.id.noEquals
  rw [ioField, hR, hW]

theorem ioField_text (sums : UInt64 × UInt64) (f : DeviceField) :
    ioField sums f.text =
      if f.key.chars = "rbytes".toList then (sums.1 + f.value, sums.2)
      else if f.key.chars = "wbytes".toList then (sums.1, sums.2 + f.value)
      else sums := by
  have hR : stripPrefix "rbytes=".toList f.text = _ :=
    stripPrefix_field (by decide : '=' ∉ "rbytes".toList) f.key.noEquals (decimal f.value)
  have hW : stripPrefix "wbytes=".toList f.text = _ :=
    stripPrefix_field (by decide : '=' ∉ "wbytes".toList) f.key.noEquals (decimal f.value)
  rw [ioField, hR, hW]
  split_ifs <;> simp [u64FromStr_decimal]

theorem fieldTotal_cons (key : String) (f : DeviceField) (fields : List DeviceField) :
    UInt64.ofNat (fieldTotal key (f :: fields)) =
      (if f.key.chars = key.toList then f.value else 0) + UInt64.ofNat (fieldTotal key fields) := by
  unfold fieldTotal
  by_cases hKey : f.key.chars = key.toList <;> simp [hKey, UInt64.ofNat_add]

theorem foldl_fields (fields : List DeviceField) (sums : UInt64 × UInt64) :
    (fields.map DeviceField.text).foldl ioField sums =
      (sums.1 + UInt64.ofNat (fieldTotal "rbytes" fields),
        sums.2 + UInt64.ofNat (fieldTotal "wbytes" fields)) := by
  induction fields generalizing sums with
  | nil => simp [fieldTotal]
  | cons f fields ih =>
    rw [List.map_cons, List.foldl_cons, ih, ioField_text, fieldTotal_cons, fieldTotal_cons]
    by_cases hR : f.key.chars = "rbytes".toList
    · have hW : f.key.chars ≠ "wbytes".toList := hR ▸ by decide
      rw [if_pos hR, if_pos hR, if_neg hW, UInt64.add_assoc, UInt64.zero_add]
    · by_cases hW : f.key.chars = "wbytes".toList
      · rw [if_neg hR, if_pos hW, if_neg hR, if_pos hW, UInt64.add_assoc, UInt64.zero_add]
      · rw [if_neg hR, if_neg hW, if_neg hR, if_neg hW, UInt64.zero_add, UInt64.zero_add]

theorem foldl_devices (devices : List Device) (sums : UInt64 × UInt64) :
    (devices.flatMap fun d => splitWhitespace d.line).foldl ioField sums =
      ((devices.flatMap Device.fields).map DeviceField.text).foldl ioField sums := by
  induction devices generalizing sums with
  | nil => rfl
  | cons d devices ih =>
    rw [List.flatMap_cons, List.flatMap_cons, List.map_append, List.foldl_append, List.foldl_append,
      splitWhitespace_line, List.foldl_cons, ioField_id, ih]

theorem newline_notMem_line (d : Device) : '\n' ∉ d.line := by
  intro h
  simp only [Device.line, List.mem_append, List.mem_flatMap] at h
  rcases h with hId | ⟨f, -, hBlanks | hField⟩
  · exact absurd (d.id.solid _ hId) (by decide)
  · exact absurd (f.blanks.blank _ hBlanks) (by decide)
  · exact absurd (f.word.solid _ hField) (by decide)

theorem flatMap_words_file {rows : List (List Char)} (hRows : ∀ row ∈ rows, '\n' ∉ row)
    (finalNewline : Bool) :
    (lines (file rows finalNewline)).flatMap splitWhitespace = rows.flatMap splitWhitespace := by
  rw [List.flatMap_def, List.flatMap_def, ← List.flatten_filter_ne_nil, words_file hRows,
    List.flatten_filter_ne_nil]

theorem ioTotal_perm (key : String) {devices devices' : List Device}
    (hOrder : devices'.Perm devices) : ioTotal key devices' = ioTotal key devices :=
  (((hOrder.flatMap_right Device.fields).filter _).map _).sum_eq

theorem parseIoStat_file (devices : List Device) (finalNewline : Bool) :
    parseIoStat (file (devices.map Device.line) finalNewline) =
      (UInt64.ofNat (ioTotal "rbytes" devices), UInt64.ofNat (ioTotal "wbytes" devices)) := by
  have hRows : ∀ row ∈ devices.map Device.line, '\n' ∉ row := by
    intro row hRow
    obtain ⟨d, -, rfl⟩ := List.mem_map.mp hRow
    exact newline_notMem_line d
  rw [parseIoStat_eq, flatMap_words_file hRows, List.flatMap_map, foldl_devices, foldl_fields]
  exact Prod.ext (UInt64.zero_add _) (UInt64.zero_add _)

end IoStat

section KvLines

/-- The loop body of `parse_kv_lines`, on the words of a line. -/
def kvWords (table : Table String UInt64) (words : List (List Char)) : Table String UInt64 :=
  match words with
  | k :: v :: _ =>
    match u64FromStr v with
    | some n => table.insert (String.ofList k) n
    | none => table
  | _ => table

theorem parseKvLines_eq (content : List Char) :
    parseKvLines content = ((lines content).map splitWhitespace).foldl kvWords ∅ := by
  rw [List.foldl_map]
  rfl

theorem kvWords_of_noValue {words : List (List Char)} (h : words[1]?.bind u64FromStr = none)
    (table : Table String UInt64) : kvWords table words = table := by
  unfold kvWords
  split
  · rename_i k v rest
    have hValue : u64FromStr v = none := h
    rw [hValue]
  · rfl

theorem foldl_kvWords_filter (rows : List (List (List Char))) (table : Table String UInt64) :
    (rows.filter (· ≠ [])).foldl kvWords table = rows.foldl kvWords table := by
  induction rows generalizing table with
  | nil => rfl
  | cons row rows ih =>
    obtain rfl | hNe := eq_or_ne row []
    · exact ih table
    · rw [List.filter_cons, if_pos (by simpa using hNe), List.foldl_cons, List.foldl_cons, ih]

theorem kvWords_line (table : Table String UInt64) (l : KvLine) :
    kvWords table (splitWhitespace l.line) =
      (l.entry?.toList).foldl (fun t e => t.insert e.1 e.2) table := by
  cases l with
  | entry key blanks value =>
    have hWords : splitWhitespace (key.chars ++ (blanks.chars ++ decimal value)) =
        [key.chars, decimal value] :=
      (Words.split_word_gap key blanks.gap _).trans
        (congrArg (key.chars :: ·) (Words.split_word (decimalWord value)))
    rw [KvLine.line, hWords, kvWords, u64FromStr_decimal]
    rfl
  | ignored text oneLine noValue => exact kvWords_of_noValue noValue table

theorem newline_notMem_kvLine (l : KvLine) : '\n' ∉ l.line := by
  cases l with
  | entry key blanks value =>
    intro h
    simp only [KvLine.line, List.mem_append] at h
    rcases h with hKey | hBlanks | hValue
    · exact absurd (key.solid _ hKey) (by decide)
    · exact absurd (blanks.blank _ hBlanks) (by decide)
    · exact absurd ((decimalWord value).solid _ hValue) (by decide)
  | ignored text oneLine noValue => exact oneLine

theorem parseKvLines_file (rows : List KvLine) (finalNewline : Bool) :
    parseKvLines (file (rows.map KvLine.line) finalNewline) =
      (rows.filterMap KvLine.entry?).foldl (fun t e => t.insert e.1 e.2) ∅ := by
  have hRows : ∀ row ∈ rows.map KvLine.line, '\n' ∉ row := by
    intro row hRow
    obtain ⟨l, -, rfl⟩ := List.mem_map.mp hRow
    exact newline_notMem_kvLine l
  have hFold (table : Table String UInt64) :
      ((rows.map KvLine.line).map splitWhitespace).foldl kvWords table =
        (rows.filterMap KvLine.entry?).foldl (fun t e => t.insert e.1 e.2) table := by
    clear hRows
    induction rows generalizing table with
    | nil => rfl
    | cons l rows ih =>
      rw [List.map_cons, List.map_cons, List.foldl_cons, kvWords_line, ih,
        ← List.singleton_append (l := rows), List.filterMap_append, List.foldl_append]
      cases hEntry : l.entry? <;> simp [hEntry]
  rw [parseKvLines_eq, ← foldl_kvWords_filter, words_file hRows, foldl_kvWords_filter, hFold]

end KvLines

/-- Whatever rows the kernel writes, the sums of `io.stat` and the map of a `key value` file are those
of the rows. -/
theorem cgroup_files_decode_exactly (devices : List Device) (rows : List KvLine)
    (finalNewline : Bool) (hRead : ioTotal "rbytes" devices < 2 ^ 64)
    (hWritten : ioTotal "wbytes" devices < 2 ^ 64)
    (hKeys : ((rows.filterMap KvLine.entry?).map Prod.fst).Nodup) :
    ((parseIoStat (file (devices.map Device.line) finalNewline)).1.toNat = ioTotal "rbytes" devices ∧
      (parseIoStat (file (devices.map Device.line) finalNewline)).2.toNat =
        ioTotal "wbytes" devices) ∧
    (∀ devices' : List Device, devices'.Perm devices →
      parseIoStat (file (devices'.map Device.line) finalNewline) =
        parseIoStat (file (devices.map Device.line) finalNewline)) ∧
    ∀ key value, (parseKvLines (file (rows.map KvLine.line) finalNewline)).lookup key = some value ↔
      (key, value) ∈ rows.filterMap KvLine.entry? := by
  rw [parseIoStat_file, parseKvLines_file]
  refine ⟨⟨UInt64.toNat_ofNat_of_lt' hRead, UInt64.toNat_ofNat_of_lt' hWritten⟩,
    fun devices' hOrder => ?_, Table.lookup_foldl_insert hKeys⟩
  rw [parseIoStat_file, ioTotal_perm "rbytes" hOrder, ioTotal_perm "wbytes" hOrder]

section Sample

theorem solid_of_all {text : List Char} (h : text.all fun c => !isWhitespace c) :
    ∀ c ∈ text, isWhitespace c = false := by
  simpa using h

def tab : Blanks := ⟨['\t'], by decide, by simp⟩

def diskId : Name := ⟨⟨"8:0".toList, by decide, solid_of_all (by decide)⟩, by decide⟩

def rbytesKey : Name := ⟨⟨"rbytes".toList, by decide, solid_of_all (by decide)⟩, by decide⟩

def dbytesKey : Name := ⟨⟨"dbytes".toList, by decide, solid_of_all (by decide)⟩, by decide⟩

def usageKey : Words.Word isWhitespace :=
  ⟨"usage_usec".toList, by decide, solid_of_all (by decide)⟩

theorem two_sample_files_decode :
    let devices : List Device := [⟨diskId, [⟨tab, dbytesKey, 7⟩, ⟨tab, rbytesKey, 100⟩]⟩,
      ⟨diskId, [⟨tab, rbytesKey, 50⟩]⟩]
    let rows : List KvLine := [.entry usageKey tab 1000000,
      .ignored "usage_usec many".toList (by decide) (by decide), .ignored [] (by decide) (by decide)]
    ((parseIoStat (file (devices.map Device.line) true)).1.toNat = ioTotal "rbytes" devices ∧
      (parseIoStat (file (devices.map Device.line) true)).2.toNat = ioTotal "wbytes" devices) ∧
    (∀ devices' : List Device, devices'.Perm devices →
      parseIoStat (file (devices'.map Device.line) true) =
        parseIoStat (file (devices.map Device.line) true)) ∧
    ∀ key value, (parseKvLines (file (rows.map KvLine.line) true)).lookup key = some value ↔
      (key, value) ∈ rows.filterMap KvLine.entry? :=
  cgroup_files_decode_exactly _ _ true (by decide) (by decide) (by decide)

end Sample

end HarnessSphere

import Cosy.AddressSyntax
import Cosy.Refreshing

/-!
# Reading the memory maps

`read_maps` takes the text of `/proc/PID/maps` line by line, and a line apart through a stream: words,
a number in base 16 and then all that is left. The bounds of the mapping are read a second time, by
`parse_address`. A line that does not fit is passed over.
-/

namespace Cosy

variable {text rest word line path : Text} {ch : Char} {value : Nat}

/-! ### The stream -/

/-- The lines that `std::getline` finds. -/
def getLines : Text → List Text
  | [] => []
  | ch :: rest =>
      if ch = '\n' then [] :: getLines rest
      else
        match getLines rest with
        | [] => [[ch]]
        | line :: lines => (ch :: line) :: lines

/-- A string is extracted: blanks are skipped, and it ends at the next one. -/
def extractWord (input : Text) : Option (Text × Text) :=
  let input := input.dropWhile isSpace
  let word := input.takeWhile fun ch => !isSpace ch
  if word = [] then none else some (word, input.dropWhile fun ch => !isSpace ch)

def extractSign : Text → Bool × Text
  | '-' :: rest => (true, rest)
  | '+' :: rest => (false, rest)
  | rest => (false, rest)

def skipMark : Text → Text
  | '0' :: 'x' :: rest => rest
  | '0' :: 'X' :: rest => rest
  | rest => rest

/-- An unsigned number is extracted after `std::hex`: there may be a sign, which negates it, and a
mark. -/
def extractHex (input : Text) : Option (Address × Text) :=
  let (negative, input) := extractSign (input.dropWhile isSpace)
  match fromChars 16 (skipMark input) with
  | some (value, rest) => some (if negative then -value else value, rest)
  | none => none

/-! ### The maps -/

/-- One round of the loop of `read_maps`. -/
def readMapping (line : Text) : Option Mapping := do
  let (range, input) ← extractWord line
  let (permissions, input) ← extractWord input
  let (offset, input) ← extractHex input
  let (_, input) ← extractWord input
  let (_, input) ← extractWord input
  let path := trim input
  let (first, second) ← splitFirst '-' range
  let start ← parseAddress ('0' :: 'x' :: first)
  let last ← parseAddress ('0' :: 'x' :: second)
  if path = [] || path.head? = some '[' then none
  else some ⟨start, last, offset, permissions, path⟩

def readMapLines (result : List Mapping) : List Text → List Mapping
  | [] => result
  | line :: lines =>
      match readMapping line with
      | none => readMapLines result lines
      | some mapping => readMapLines (result ++ [mapping]) lines

/-- `read_maps` on the text of the maps, which may not be there. -/
def readMaps (maps : Option Text) : Except Exception (List Mapping) :=
  match maps with
  | none => .error (.runtime "cannot read target memory maps")
  | some text => .ok (readMapLines [] (getLines text))

/-! ### What the kernel prints -/

/-- A word of a line. -/
def Solid (word : Text) : Prop := word ≠ [] ∧ ∀ ch ∈ word, isSpace ch = false

/-- The number in lower-case digits, with zeros in front of it or without. -/
def LowerHex (text : Text) (value : Nat) : Prop :=
  Spells 16 text value ∧ ∀ ch ∈ text, ch ∈ hexDigits

/-- What the kernel knows of a mapping. -/
structure MapRecord where
  start : Address
  last : Address
  offset : Address
  permissions : Text
  device : Text
  inode : Text
  path : Text
  length_permissions : permissions.length = 4
  solid_permissions : ∀ ch ∈ permissions, isSpace ch = false
  solid_device : Solid device
  solid_inode : Solid inode
  line_path : '\n' ∉ path
  head_path : ∀ ch ∈ path.head?, isTrimmed ch = false
  last_path : ∀ ch ∈ path.getLast?, isTrimmed ch = false

namespace MapRecord

/-- The mapping is of a file, and not one of the kernel's own. -/
def isFile (record : MapRecord) : Bool := record.path ≠ [] && record.path.head? ≠ some '['

def mapping (record : MapRecord) : Mapping :=
  ⟨record.start, record.last, record.offset, record.permissions, record.path⟩

/-- The line of the record: a blank after each field, and any number of them before the path. -/
def IsPrinted (record : MapRecord) (line : Text) : Prop :=
  ∃ start last offset blanks : Text,
    LowerHex start record.start.toNat ∧ LowerHex last record.last.toNat ∧
      LowerHex offset record.offset.toNat ∧ (∀ ch ∈ blanks, ch = ' ' ∨ ch = '\t') ∧
      line = (start ++ '-' :: last) ++ ' ' :: (record.permissions ++ ' ' :: (offset ++ ' ' ::
        (record.device ++ ' ' :: (record.inode ++ ' ' :: (blanks ++ record.path)))))

end MapRecord

/-- The text of the maps, a line for each record. -/
inductive PrintedMaps : List MapRecord → Text → Prop
  | nil : PrintedMaps [] []
  | cons {record : MapRecord} {records : List MapRecord} {line text : Text}
      (hline : record.IsPrinted line) (hrest : PrintedMaps records text) :
      PrintedMaps (record :: records) (line ++ '\n' :: text)

/-! ### Lines -/

theorem getLines_append (hline : '\n' ∉ line) (text : Text) :
    getLines (line ++ '\n' :: text) = line :: getLines text := by
  induction line with
  | nil => rfl
  | cons ch line ih =>
      rw [List.mem_cons, not_or] at hline
      rw [List.cons_append, getLines, if_neg (Ne.symm hline.1), ih hline.2]

theorem getLines_of_not_mem (hline : '\n' ∉ line) (hne : line ≠ []) : getLines line = [line] := by
  induction line with
  | nil => exact absurd rfl hne
  | cons ch line ih =>
      rw [List.mem_cons, not_or] at hline
      rw [getLines, if_neg (Ne.symm hline.1)]
      cases line with
      | nil => rfl
      | cons next line => rw [ih hline.2 (List.cons_ne_nil next line)]

theorem readMapLines_eq (lines : List Text) (result : List Mapping) :
    readMapLines result lines = result ++ lines.filterMap readMapping := by
  induction lines generalizing result with
  | nil => simp [readMapLines]
  | cons line lines ih =>
      rw [readMapLines, List.filterMap_cons]
      cases readMapping line with
      | none => exact ih result
      | some mapping => simp [ih]

theorem readMaps_eq (text : Text) :
    readMaps (some text) = .ok ((getLines text).filterMap readMapping) := by
  rw [readMaps, readMapLines_eq, List.nil_append]

/-! ### Extraction -/

theorem extractWord_blank (input : Text) : extractWord (' ' :: input) = extractWord input := rfl

theorem extractWord_append (hword : Solid word) (rest : Text) :
    extractWord (word ++ ' ' :: rest) = some (word, ' ' :: rest) := by
  obtain ⟨hne, hsolid⟩ := hword
  have hall : ∀ ch ∈ word, (!isSpace ch) = true := by simpa using hsolid
  have hskip : (word ++ ' ' :: rest).dropWhile isSpace = word ++ ' ' :: rest := by
    obtain ⟨first, more, rfl⟩ := List.exists_cons_of_ne_nil hne
    exact List.dropWhile_cons_of_neg (by simp [hsolid first List.mem_cons_self])
  have htake : (' ' :: rest).takeWhile (fun ch => !isSpace ch) = [] := rfl
  have hdrop : (' ' :: rest).dropWhile (fun ch => !isSpace ch) = ' ' :: rest := rfl
  unfold extractWord
  dsimp only
  rw [hskip, List.takeWhile_append_of_pos hall, List.dropWhile_append_of_pos hall,
    htake, hdrop, List.append_nil]
  exact if_neg hne

/-- A lower-case digit is neither a blank nor a sign nor part of the mark. -/
theorem unmarked_of_hexDigits : ∀ ch ∈ hexDigits,
    isSpace ch = false ∧ ch ≠ '-' ∧ ch ≠ '+' ∧ ch ≠ 'x' ∧ ch ≠ 'X' :=
  List.all_iff_forall_prop.mp (by decide)

theorem extractSign_eq_self {first : Char} (hminus : first ≠ '-') (hplus : first ≠ '+')
    (rest : Text) : extractSign (first :: rest) = (false, first :: rest) := by
  unfold extractSign
  split
  · exact absurd (List.cons.inj ‹_›).1 hminus
  · exact absurd (List.cons.inj ‹_›).1 hplus
  · rfl

theorem skipMark_eq_self {first second : Char} (hlower : second ≠ 'x') (hupper : second ≠ 'X')
    (rest : Text) : skipMark (first :: second :: rest) = first :: second :: rest := by
  unfold skipMark
  split
  · exact absurd (List.cons.inj (List.cons.inj ‹_›).2).1 hlower
  · exact absurd (List.cons.inj (List.cons.inj ‹_›).2).1 hupper
  · rfl

theorem extractHex_blank (input : Text) : extractHex (' ' :: input) = extractHex input := rfl

/-- Lower-case digits have neither a sign nor a mark in front of them. -/
theorem extractHex_append {v : Address} (htext : LowerHex text v.toNat) (rest : Text) :
    extractHex (text ++ ' ' :: rest) = some (v, ' ' :: rest) := by
  obtain ⟨hspells, hlower⟩ := htext
  have hblank : ∀ ch ∈ (' ' :: rest).head?, digitValue 16 ch = none := by
    rintro ch ⟨⟩
    decide
  have hfound := fromChars_of_spells le_rfl hspells hblank
  obtain ⟨first, more, rfl⟩ := List.exists_cons_of_ne_nil hspells.1
  obtain ⟨hspace, hminus, hplus, -⟩ := unmarked_of_hexDigits first (hlower first List.mem_cons_self)
  have hskip : (first :: more ++ ' ' :: rest).dropWhile isSpace = first :: more ++ ' ' :: rest :=
    List.dropWhile_cons_of_neg (by simp [hspace])
  have hmark : skipMark (first :: more ++ ' ' :: rest) = first :: more ++ ' ' :: rest := by
    cases more with
    | nil => exact skipMark_eq_self (by decide) (by decide) _
    | cons second more =>
        obtain ⟨-, -, -, hx, hX⟩ := unmarked_of_hexDigits second (hlower second (by simp))
        exact skipMark_eq_self hx hX _
  unfold extractHex
  rw [hskip, List.cons_append, extractSign_eq_self hminus hplus, ← List.cons_append]
  dsimp only
  rw [hmark, hfound]
  rfl

theorem dropWhile_eq_self_of_head {p : Char → Bool} (hhead : ∀ ch ∈ text.head?, p ch = false) :
    text.dropWhile p = text := by
  cases text with
  | nil => rfl
  | cons ch rest => exact List.dropWhile_cons_of_neg (by simp [hhead ch rfl])

theorem trim_append {blanks : Text} (hblanks : ∀ ch ∈ blanks, isTrimmed ch = true)
    (hhead : ∀ ch ∈ path.head?, isTrimmed ch = false)
    (hlast : ∀ ch ∈ path.getLast?, isTrimmed ch = false) : trim (blanks ++ path) = path := by
  have hlast' : ∀ ch ∈ path.reverse.head?, isTrimmed ch = false := by
    rw [List.head?_reverse]
    exact hlast
  rw [trim, List.dropWhile_append_of_pos hblanks, dropWhile_eq_self_of_head hhead,
    dropWhile_eq_self_of_head hlast', List.reverse_reverse]

theorem parseAddress_lowerHex {v : Address} (htext : LowerHex text v.toNat) :
    parseAddress ('0' :: 'x' :: text) = some v :=
  parseAddress_eq_iff.mpr (.hexadecimal (Or.inl rfl) htext.1)

/-! ### What is read back -/

theorem solid_range {start last : Text} {v w : Nat} (hstart : LowerHex start v)
    (hlast : LowerHex last w) : Solid (start ++ '-' :: last) := by
  refine ⟨by simp, fun ch hch => ?_⟩
  rcases List.mem_append.mp hch with hch | hch
  · exact (unmarked_of_hexDigits ch (hstart.2 ch hch)).1
  · rcases List.mem_cons.mp hch with rfl | hch
    · rfl
    · exact (unmarked_of_hexDigits ch (hlast.2 ch hch)).1

/-- A line that was printed is read as its record, if that is of a file. -/
theorem MapRecord.IsPrinted.readMapping {record : MapRecord} (hline : record.IsPrinted line) :
    readMapping line = if record.isFile then some record.mapping else none := by
  obtain ⟨start, last, offset, blanks, hstart, hlast, hoffset, hblanks, rfl⟩ := hline
  have hpermissions : Solid record.permissions := by
    refine ⟨?_, record.solid_permissions⟩
    intro hnil
    simpa [hnil] using record.length_permissions
  have hdash : '-' ∉ start := by
    intro hmem
    have hdigit : '-' ∈ hexDigits := hstart.2 _ hmem
    revert hdigit
    decide
  have hblanks' : ∀ ch ∈ ' ' :: blanks, isTrimmed ch = true := by
    rintro ch hch
    rcases List.mem_cons.mp hch with rfl | hch
    · rfl
    · rcases hblanks ch hch with rfl | rfl <;> rfl
  have htrim : trim (' ' :: (blanks ++ record.path)) = record.path := by
    rw [← List.cons_append]
    exact trim_append hblanks' record.head_path record.last_path
  unfold Cosy.readMapping
  simp only [extractWord_append (solid_range hstart hlast), extractWord_blank,
    extractWord_append hpermissions, extractHex_blank, extractHex_append hoffset,
    extractWord_append record.solid_device, extractWord_append record.solid_inode, htrim,
    splitFirst_append hdash, parseAddress_lowerHex hstart, parseAddress_lowerHex hlast,
    Option.bind_eq_bind, Option.bind_some]
  unfold MapRecord.isFile
  by_cases hpath : record.path = []
  · simp [hpath]
  · by_cases hhead : record.path.head? = some '['
    · simp [hhead]
    · simp [hpath, hhead, MapRecord.mapping]

theorem MapRecord.IsPrinted.not_mem {record : MapRecord} (hline : record.IsPrinted line) :
    '\n' ∉ line := by
  obtain ⟨start, last, offset, blanks, hstart, hlast, hoffset, hblanks, rfl⟩ := hline
  have hsolid : ∀ word : Text, (∀ ch ∈ word, isSpace ch = false) → '\n' ∉ word :=
    fun word hword hmem => absurd (hword _ hmem) (by decide)
  have hhex : ∀ (word : Text) (v : Nat), LowerHex word v → '\n' ∉ word :=
    fun word v hword => hsolid word fun ch hch => (unmarked_of_hexDigits ch (hword.2 ch hch)).1
  have hgap : '\n' ∉ blanks := fun hmem => by simpa using hblanks _ hmem
  simp [hhex _ _ hstart, hhex _ _ hlast, hhex _ _ hoffset, hgap, hsolid _ record.solid_permissions,
    hsolid _ record.solid_device.2, hsolid _ record.solid_inode.2, record.line_path]

theorem readMaps_of_printed {records : List MapRecord} (hprinted : PrintedMaps records text) :
    readMaps (some text) = .ok ((records.filter MapRecord.isFile).map MapRecord.mapping) := by
  rw [readMaps_eq]
  congr 1
  induction hprinted with
  | nil => rfl
  | @cons record records line text hline _ ih =>
      rw [getLines_append hline.not_mem, List.filterMap_cons, hline.readMapping, ih, List.filter_cons]
      cases record.isFile <;> rfl

/-- Each line gives what it gives alone. -/
theorem readMaps_of_lines {lines : List Text} (hlines : ∀ line ∈ lines, '\n' ∉ line)
    (hlast : '\n' ∉ line) :
    readMaps (some (lines.flatMap (fun line => line ++ ['\n']) ++ line))
      = .ok ((lines ++ [line]).flatMap fun line => (readMapping line).toList) := by
  rw [readMaps_eq]
  congr 1
  induction lines with
  | nil =>
      by_cases hne : line = []
      · rw [hne]
        rfl
      · rw [List.flatMap_nil, List.nil_append, getLines_of_not_mem hlast hne, List.filterMap_cons]
        cases hread : readMapping line <;> simp [hread]
  | cons first lines ih =>
      obtain ⟨hfirst, hrest⟩ := List.forall_mem_cons.mp hlines
      rw [List.flatMap_cons, List.append_assoc, List.append_assoc, List.singleton_append,
        getLines_append hfirst, List.filterMap_cons, List.cons_append, List.flatMap_cons, ← ih hrest]
      cases readMapping first <;> rfl

/-- The records of files come back as they were printed, in order. And in any text at all a line gives
one mapping or none, the same whatever lines there are around it. -/
theorem readMaps_printed :
    (∀ records text, PrintedMaps records text →
      readMaps (some text) = .ok ((records.filter MapRecord.isFile).map MapRecord.mapping)) ∧
    ∃ contribution : Text → List Mapping,
      (∀ line, (contribution line).length ≤ 1) ∧
      (∀ (record : MapRecord) line, record.IsPrinted line →
        contribution line = if record.isFile then [record.mapping] else []) ∧
      ∀ (lines : List Text) (line : Text), (∀ line ∈ lines, '\n' ∉ line) → '\n' ∉ line →
        readMaps (some (lines.flatMap (fun line => line ++ ['\n']) ++ line))
          = .ok ((lines ++ [line]).flatMap contribution) := by
  refine ⟨fun records text => readMaps_of_printed, fun line => (readMapping line).toList, ?_, ?_, ?_⟩
  · intro line
    cases readMapping line <;> simp
  · intro record line hline
    change (readMapping line).toList = _
    rw [hline.readMapping]
    cases record.isFile <;> rfl
  · exact fun lines line => readMaps_of_lines

/-! ### A library and the heap -/

def libraryRecord : MapRecord where
  start := 0x7f00a000
  last := 0x7f01c000
  offset := 0x2000
  permissions := "r-xp".toList
  device := "08:02".toList
  inode := "1735".toList
  path := "/opt/my lib.so".toList
  length_permissions := rfl
  solid_permissions := List.all_iff_forall_prop.mp (by decide)
  solid_device := ⟨by decide, List.all_iff_forall_prop.mp (by decide)⟩
  solid_inode := ⟨by decide, List.all_iff_forall_prop.mp (by decide)⟩
  line_path := by decide
  head_path := by simp [isTrimmed]
  last_path := by simp [isTrimmed]

def heapRecord : MapRecord :=
  { libraryRecord with
    path := "[heap]".toList
    line_path := by decide
    head_path := by simp [isTrimmed]
    last_path := by simp [isTrimmed] }

theorem lowerHex_of_fromChars {v : Address} (hfound : fromChars 16 text = some (v, []))
    (hlower : text.all fun ch => ch ∈ hexDigits) : LowerHex text v.toNat :=
  ⟨(fromChars_eq_iff le_rfl).mp hfound, List.all_iff_forall_prop.mp hlower⟩

def libraryLine : Text :=
  "7f00a000-7f01c000 r-xp 00002000 08:02 1735            /opt/my lib.so".toList

def heapLine : Text := "7f00a000-7f01c000 r-xp 2000 08:02 1735 [heap]".toList

theorem readMaps_printed_two :
    readMaps (some (libraryLine ++ '\n' :: (heapLine ++ ['\n'])))
      = .ok [⟨0x7f00a000, 0x7f01c000, 0x2000, "r-xp".toList, "/opt/my lib.so".toList⟩] := by
  have hstart : LowerHex "7f00a000".toList libraryRecord.start.toNat :=
    lowerHex_of_fromChars (by decide) (by decide)
  have hlast : LowerHex "7f01c000".toList libraryRecord.last.toNat :=
    lowerHex_of_fromChars (by decide) (by decide)
  have hlibrary : libraryRecord.IsPrinted libraryLine :=
    ⟨"7f00a000".toList, "7f01c000".toList, "00002000".toList, List.replicate 11 ' ', hstart, hlast,
      lowerHex_of_fromChars (by decide) (by decide),
      fun ch hch => Or.inl (List.eq_of_mem_replicate hch), rfl⟩
  have hheap : heapRecord.IsPrinted heapLine :=
    ⟨"7f00a000".toList, "7f01c000".toList, "2000".toList, [], hstart, hlast,
      lowerHex_of_fromChars (by decide) (by decide), by simp, rfl⟩
  exact readMaps_printed.1 [libraryRecord, heapRecord] _ (.cons hlibrary (.cons hheap .nil))

end Cosy

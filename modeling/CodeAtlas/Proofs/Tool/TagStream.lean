import CodeAtlas.Proofs.Text.Lines
import CodeAtlas.Proofs.Text.Search
import CodeAtlas.Proofs.Text.Trimming
import CodeAtlas.Tool.Tags

/-!
# A written tag stream is read back

A tag stream is written entry by entry, one on each line: the name, the file and the command
separated by tabs, `;"` behind the command, and the fields, each behind a tab of its own.  Lines
that describe the stream and blank lines may stand anywhere between them.

`symbols_of_stream` says what is read from such a stream.  Every entry is read with its own parts,
so the lines that are no entries make no difference, not even for the numbers of the entries; and of
the fields, which may be repeated and come in any order, the last that says something about the
kind, the line, the signature or the type counts (`foldl_addField`).
-/

namespace CodeAtlas

/-! ### Entries as they are written -/

/-- An entry of a tag stream, in its parts. -/
structure TagRecord where
  name : String
  file : String
  /-- The command for finding the place. -/
  command : String
  fields : List String

/-- A line of a tag stream. -/
inductive TagLine where
  | entry (record : TagRecord)
  /-- A line that is no entry. -/
  | other (text : String)

namespace TagRecord

/-- The written form of an entry. -/
def print (r : TagRecord) : String :=
  r.name ++ "\t" ++ r.file ++ "\t" ++ r.command ++ ";\"" ++
    String.join (r.fields.map fun field => "\t" ++ field)

/-- The parts of an entry can be told apart in its written form, which is one line and is not taken
for one that describes the stream. -/
structure IsPrintable (r : TagRecord) : Prop where
  lineFeed_not_mem : ∀ part ∈ r.name :: r.file :: r.command :: r.fields, '\n' ∉ part.toList
  return_not_mem : ∀ field ∈ r.fields, '\r' ∉ field.toList
  tab_not_mem : ∀ part ∈ r.name :: r.file :: r.fields, '\t' ∉ part.toList
  name_not_header : ¬ ['!', '_'] <+: r.name.toList
  command_not_ended : ¬ [';', '"'] <:+: r.command.toList

/-- What a field says under a key. -/
def underKey? (key field : String) : Option String := Text.after? (key ++ ":") field

/-- What a field says about the kind: a field without a colon is the kind, unless it is empty. -/
def kindOf? (field : String) : Option String :=
  if ':' ∈ field.toList then underKey? "kind" field else if field = "" then none else some field

/-- What a field says about the line. -/
def lineOf? (field : String) : Option Nat := (underKey? "line" field).bind TagEntry.lineNumber?

/-- What a field says about the type; it may say that the type is given by its name. -/
def typerefOf? (field : String) : Option String :=
  (underKey? "typeref" field).map fun type => (Text.after? "typename:" type).getD type

/-- The last that fields say about something. -/
def last? {α : Type} (say : String → Option α) (fields : List String) : Option α :=
  (fields.filterMap say).getLast?

/-- The kind of an entry: the last that is given. -/
def kind (r : TagRecord) : String := (last? kindOf? r.fields).getD ""

/-- The line of an entry: the last that is given and is a number, or else the command if it is a
number. -/
def line? (r : TagRecord) : Option Nat :=
  (last? lineOf? r.fields).or (TagEntry.lineNumber? (Text.trim r.command))

/-- The line of an entry, which is the first if none is told. -/
def line (r : TagRecord) : UInt32 := (r.line?.getD 1).toUInt32

/-- The signature of an entry: the last that is given. -/
def signature? (r : TagRecord) : Option String := last? (underKey? "signature") r.fields

/-- The type of an entry: the last that is given. -/
def typeref? (r : TagRecord) : Option String := last? typerefOf? r.fields

/-- A path without the `./` at its front, however often it stands there. -/
def withoutDots : List Char → List Char
  | '.' :: '/' :: rest => withoutDots rest
  | cs => cs

/-- The file of an entry as it stands in an index. -/
def path (r : TagRecord) : String :=
  String.ofList ((withoutDots r.file.toList).map fun c => if c = '\\' then '/' else c)

/-- What an entry is read as. -/
def toEntry (r : TagRecord) : TagEntry where
  name := r.name
  file := r.file
  command := r.command
  kind := r.kind
  line := r.line?
  signature := r.signature?
  typeref := r.typeref?

/-- The symbol of an entry with a number, if its kind stands for one. -/
def symbol? (r : TagRecord) (ordinal : UInt32) : Option Symbol :=
  (TagEntry.symbolKind? r.kind).map fun kind =>
    { id := SymbolId.derive ⟨.ctags, kind, r.name, r.path, r.line, ordinal⟩
      name := r.name
      file := r.path
      line := r.line
      declaration := TagEntry.patternText r.command
      origin := .ctags
      detail := r.toEntry.detail kind }

end TagRecord

namespace TagLine

/-- The written form of a line, without its end. -/
def text : TagLine → String
  | .entry record => record.print
  | .other text => text

/-- The entry of a line. -/
def record? : TagLine → Option TagRecord
  | .entry record => some record
  | .other _ => none

/-- A line of a stream: an entry whose parts can be told apart, or a line that describes the stream
or is blank. -/
def IsPrintable : TagLine → Prop
  | .entry record => record.IsPrintable
  | .other text => '\n' ∉ text.toList ∧
      (['!', '_'] <+: text.toList ∨ ∀ c ∈ text.toList, isBlank c = true)

/-- The stream with the given lines. -/
def stream (lines : List TagLine) : String := String.join (lines.map fun line => line.text ++ "\n")

/-- The entries of a stream. -/
def records (lines : List TagLine) : List TagRecord := lines.filterMap record?

end TagLine

namespace TagEntry

/-! ### Fields -/

variable {key value field : List Char} {command : List Char}

/-- What stands under a key is found in a field with this key and in no other one. -/
lemma underKey?_append_cons (word : String) (hword : ':' ∉ word.toList) (hkey : ':' ∉ key)
    (value : List Char) :
    TagRecord.underKey? word (String.ofList (key ++ ':' :: value)) =
      if String.ofList key = word then some (String.ofList value) else none := by
  have hpattern : (word ++ ":").toList = word.toList ++ [':'] := by simp
  rw [TagRecord.underKey?, Text.after?, hpattern, String.toList_ofList]
  split_ifs with heq
  · rw [← heq, String.toList_ofList, List.append_cons key ':' value,
      afterBeginning?_eq_some_iff.mpr rfl]
    rfl
  · cases hafter : afterBeginning? (word.toList ++ [':']) (key ++ ':' :: value) with
    | none => rfl
    | some rest =>
      rw [afterBeginning?_eq_some_iff, ← List.append_cons] at hafter
      obtain ⟨rfl, -⟩ := append_cons_inj_of_not_mem hkey hword hafter
      exact absurd String.ofList_toList heq

/-- A field without a colon says nothing under a key. -/
lemma underKey?_eq_none (h : ':' ∉ field) (word : String) :
    TagRecord.underKey? word (String.ofList field) = none := by
  rw [TagRecord.underKey?, Text.after?, String.toList_ofList]
  cases hafter : afterBeginning? (word ++ ":").toList field with
  | none => rfl
  | some rest =>
    rw [afterBeginning?_eq_some_iff] at hafter
    exact absurd (by simp [hafter]) h

/-- A field that is not empty replaces what it says something about. -/
lemma addField_eq (e : TagEntry) (hne : field ≠ []) :
    e.addField field =
      { e with
        kind := (TagRecord.kindOf? (String.ofList field)).getD e.kind
        line := (TagRecord.lineOf? (String.ofList field)).or e.line
        signature := (TagRecord.underKey? "signature" (String.ofList field)).or e.signature
        typeref := (TagRecord.typerefOf? (String.ofList field)).or e.typeref } := by
  rw [addField]
  cases hsplit : splitOnce? ':' field with
  | none =>
    have hcolon := splitOnce?_eq_none_iff.mp hsplit
    simp [TagRecord.kindOf?, TagRecord.lineOf?, TagRecord.typerefOf?, underKey?_eq_none hcolon,
      hcolon, hne]
  | some p =>
    obtain ⟨key, value⟩ := p
    obtain ⟨hkey, rfl⟩ := splitOnce?_eq_some_iff.mp hsplit
    have hcolon : ':' ∈ (String.ofList (key ++ ':' :: value)).toList := by simp
    simp only [TagRecord.kindOf?, TagRecord.lineOf?, TagRecord.typerefOf?, if_pos hcolon,
      underKey?_append_cons "kind" (by decide) hkey,
      underKey?_append_cons "line" (by decide) hkey,
      underKey?_append_cons "signature" (by decide) hkey,
      underKey?_append_cons "typeref" (by decide) hkey]
    generalize String.ofList key = key
    split <;> simp_all

end TagEntry

namespace TagRecord

/-- The first field says the last only if no other one does. -/
lemma last?_cons {α : Type} (say : String → Option α) (field : String) (fields : List String) :
    last? say (field :: fields) = (last? say fields).or (say field) := by
  rw [last?, List.filterMap_cons]
  cases hsay : say field with
  | none => simp [last?]
  | some x => simp [last?, List.getLast?_cons]

/-- Nothing is said where all fields are empty. -/
lemma last?_empty_cons {α : Type} (say : String → Option α) (h : say "" = none)
    (fields : List String) : last? say ("" :: fields) = last? say fields := by
  rw [last?_cons, h, Option.or_none]

end TagRecord

namespace TagEntry

variable {key value field : List Char} {command : List Char}

/-- Of the fields that are not empty the last counts that says something. -/
lemma foldl_addField (fields : List String) (e : TagEntry) :
    ((fields.map String.toList).filter fun f => !f.isEmpty).foldl addField e =
      { e with
        kind := (TagRecord.last? TagRecord.kindOf? fields).getD e.kind
        line := (TagRecord.last? TagRecord.lineOf? fields).or e.line
        signature := (TagRecord.last? (TagRecord.underKey? "signature") fields).or e.signature
        typeref := (TagRecord.last? TagRecord.typerefOf? fields).or e.typeref } := by
  induction fields generalizing e with
  | nil => rfl
  | cons field fields ih =>
    by_cases hempty : field = ""
    · subst hempty
      have hskip : ((("" :: fields).map String.toList).filter fun f => !f.isEmpty) =
          (fields.map String.toList).filter fun f => !f.isEmpty := by simp
      rw [hskip, ih]
      simp only [TagRecord.last?_empty_cons TagRecord.kindOf? rfl,
        TagRecord.last?_empty_cons TagRecord.lineOf? rfl,
        TagRecord.last?_empty_cons (TagRecord.underKey? "signature") rfl,
        TagRecord.last?_empty_cons TagRecord.typerefOf? rfl]
    · have hne : field.toList ≠ [] := by simpa using hempty
      rw [List.map_cons, List.filter_cons_of_pos (by simpa using hne), List.foldl_cons,
        addField_eq e hne, ih, String.ofList_toList]
      simp only [TagRecord.last?_cons, Option.or_assoc]
      cases TagRecord.last? TagRecord.kindOf? fields <;> rfl

/-! ### Parts of a line -/

/-- The command of an entry does not reach beyond its end. -/
lemma splitAtInfix?_command (h : ¬ [';', '"'] <:+: command) (rest : List Char) :
    splitAtInfix? [';', '"', '\t'] (command ++ ';' :: '"' :: rest) =
      (splitAtInfix? [';', '"', '\t'] (';' :: '"' :: rest)).map
        fun (before, found) => (command ++ before, found) := by
  induction command with
  | nil => simp
  | cons c command ih =>
    have hbelow : ¬ [';', '"'] <:+: command := fun hfound =>
      h (hfound.trans (List.suffix_cons c command).isInfix)
    have hfront : ¬ [';', '"', '\t'] <+: c :: (command ++ ';' :: '"' :: rest) := by
      intro hfront
      -- A quote behind the first character stands in the command as well.
      obtain ⟨rfl, htail⟩ := List.cons_prefix_cons.mp hfront
      cases command with
      | nil => simp at htail
      | cons d command =>
        obtain ⟨rfl, -⟩ := List.cons_prefix_cons.mp htail
        exact h ⟨[], command, rfl⟩
    rw [List.cons_append, splitAtInfix?_cons_of_not_isPrefix hfront, ih hbelow, Option.map_map]
    rfl

/-- Written fields are cut at their tabs. -/
lemma splitAtClass_fields {field : String} {fields : List String}
    (h : ∀ f ∈ field :: fields, '\t' ∉ f.toList) :
    splitAtClass (· == '\t') (field.toList ++ fields.flatMap fun f => '\t' :: f.toList) =
      (field :: fields).map String.toList := by
  induction fields generalizing field with
  | nil =>
    rw [List.flatMap_nil, List.append_nil, splitAtClass_of_not_mem (h field (by simp))]
    rfl
  | cons field' fields ih =>
    rw [List.forall_mem_cons] at h
    rw [List.flatMap_cons, List.cons_append, splitAtClass_append_cons (by rfl),
      splitAtClass_of_not_mem h.1, ih h.2]
    rfl

/-- The written form of an entry, behind its file. -/
def afterFile (r : TagRecord) : List Char :=
  r.command.toList ++ ';' :: '"' :: r.fields.flatMap fun field => '\t' :: field.toList

/-- The written form of an entry, as a list of characters. -/
lemma toList_print (r : TagRecord) :
    r.print.toList = r.name.toList ++ '\t' :: (r.file.toList ++ '\t' :: afterFile r) := by
  have hfields : ∀ fields : List String,
      (String.join (fields.map fun field => "\t" ++ field)).toList =
        fields.flatMap fun field => '\t' :: field.toList := by
    intro fields
    induction fields with
    | nil => rfl
    | cons field fields ih => simp [ih]
  simp [TagRecord.print, afterFile, hfields]

/-- Nothing is taken off the end of a written entry. -/
lemma dropReturn_print {r : TagRecord} (h : r.IsPrintable) :
    dropReturn r.print.toList = r.print.toList := by
  have hlast : '\r' ∉ ';' :: '"' :: r.fields.flatMap fun field => '\t' :: field.toList := by
    simpa using h.return_not_mem
  have hprint : r.print.toList = (r.name.toList ++ '\t' :: (r.file.toList ++ '\t' ::
      r.command.toList)) ++ ';' :: '"' :: r.fields.flatMap fun field => '\t' :: field.toList := by
    simp [toList_print, afterFile]
  rw [hprint, dropReturn_append (List.cons_ne_nil _ _) hlast]

/-- The command and the fields of an entry are found in its written form. -/
lemma splitFields_afterFile {r : TagRecord} (h : r.IsPrintable) :
    splitFields (afterFile r) =
      (r.command.toList, (r.fields.map String.toList).filter fun f => !f.isEmpty) := by
  rw [splitFields, afterFile, splitAtInfix?_command h.command_not_ended]
  cases hfields : r.fields with
  | nil =>
    have hend : ¬ [';', '"'] <:+ r.command.toList := fun hend =>
      h.command_not_ended hend.isInfix
    have hnone : splitAtInfix? [';', '"', '\t'] [';', '"'] = none := by decide
    rw [List.flatMap_nil, hnone]
    simp only [Option.map_none, dropTrailingCopies_append (by simp) hend]
    rfl
  | cons field fields =>
    have htabs : ∀ f ∈ field :: fields, '\t' ∉ f.toList := by
      intro f hf
      refine h.tab_not_mem f ?_
      rw [hfields]
      exact List.mem_cons_of_mem _ (List.mem_cons_of_mem _ hf)
    have hmark : [';', '"', '\t'] ≠ [] := by simp
    have hfound := splitAtInfix?_append hmark
      (field.toList ++ fields.flatMap fun f => '\t' :: f.toList)
    rw [List.flatMap_cons, List.cons_append]
    simp only [List.cons_append, List.nil_append] at hfound
    simp only [hfound, Option.map_some, List.append_nil, List.drop_succ_cons, List.drop_zero,
      splitAtClass_fields htabs]

/-- An entry is read back from its written form. -/
lemma ofLine?_print {r : TagRecord} (h : r.IsPrintable) :
    ofLine? r.print.toList = some r.toEntry := by
  have hname : '\t' ∉ r.name.toList := h.tab_not_mem _ (by simp)
  have hfile : '\t' ∉ r.file.toList := h.tab_not_mem _ (by simp)
  have hheader : ¬ ['!', '_'] <+: r.print.toList := by
    have hnot := h.name_not_header
    rw [toList_print]
    -- The tab behind the name stands where the beginning of a header would go on.
    cases hchars : r.name.toList with
    | nil => simp
    | cons c cs =>
      cases cs with
      | nil => simp
      | cons d cs => simpa [hchars] using hnot
  have hblank : trimBy isBlank r.print.toList ≠ [] := by
    intro hnil
    have hcount := count_trimBy (p := isBlank) (c := '"') (by decide) r.print.toList
    rw [hnil, toList_print, afterFile] at hcount
    simp at hcount
  have hsplit : splitFirst '\t' 2 r.print.toList =
      [r.name.toList, r.file.toList, afterFile r] := by
    rw [toList_print]
    simp only [splitFirst, splitOnce?_append hname, splitOnce?_append hfile]
  rw [ofLine?, if_neg (by simp [hheader, hblank]), hsplit]
  simp only [splitFields_afterFile h, foldl_addField, String.ofList_toList, Option.or_none]
  rfl

/-- A line that describes a stream or is blank is no entry. -/
lemma ofLine?_other {text : String} (h : (TagLine.other text).IsPrintable) :
    ofLine? (dropReturn text.toList) = none := by
  have hcases := dropReturn_cases text.toList
  rw [ofLine?, if_pos]
  rcases h.2 with hheader | hblank
  · -- The beginning of a header has no carriage return that could be taken off.
    left
    rw [List.isPrefixOf_iff_prefix]
    rcases hcases with hkept | htaken
    · rwa [hkept]
    · rw [htaken, List.prefix_concat_iff] at hheader
      refine hheader.resolve_left fun heq => ?_
      have hlast := congrArg List.getLast? heq
      rw [List.getLast?_concat] at hlast
      exact absurd hlast (by decide)
  · right
    have hall : ∀ c ∈ dropReturn text.toList, isBlank c = true := by
      intro c hc
      rcases hcases with hkept | htaken
      · exact hblank c (hkept ▸ hc)
      · exact hblank c (htaken ▸ List.mem_append_left _ hc)
    rw [trimBy, trimLeftBy, List.dropWhile_eq_nil_iff.mpr hall]
    rfl

/-- The `./` at the front of a path are all taken off. -/
lemma dropLeadingCopies_eq_withoutDots (cs : List Char) :
    dropLeadingCopies ['.', '/'] cs = TagRecord.withoutDots cs := by
  fun_induction TagRecord.withoutDots cs with
  | case1 rest ih => rw [← ih]; exact dropLeadingCopies_append (by simp) rest
  | case2 cs hother =>
    refine dropLeadingCopies_of_not_prefix ?_
    rintro ⟨rest, rfl⟩
    exact hother rest rfl

/-- What an entry is read as stands for its symbol. -/
lemma toSymbol?_toEntry (r : TagRecord) {ordinal : Nat} {word : UInt32}
    (hword : word.toNat = ordinal) : r.toEntry.toSymbol? ordinal = r.symbol? word := by
  have hordinal : ordinal.toUInt32 = word := by rw [← hword, Nat.toUInt32_eq, UInt32.ofNat_toNat]
  have hpath : projectFile r.file = r.path := by
    rw [projectFile, TagRecord.path, dropLeadingCopies_eq_withoutDots]
  rw [toSymbol?, TagRecord.symbol?]
  refine Option.map_congr fun kind hkind => ?_
  have hkind' : (r.toEntry.detail kind).kind = kind := by cases kind <;> rfl
  rw [SymbolDraft.toSymbol, hkind', hordinal, show projectFile r.toEntry.file = r.path from hpath]
  rfl

end TagEntry

namespace TagLine

open TagStream

/-- A line of a stream is one line. -/
lemma lineFeed_not_mem {line : TagLine} (h : line.IsPrintable) : '\n' ∉ line.text.toList := by
  cases line with
  | other text => exact h.1
  | entry r =>
    have hparts := h.lineFeed_not_mem
    simp only [List.forall_mem_cons] at hparts
    obtain ⟨hname, hfile, hcommand, hfields⟩ := hparts
    rw [text, TagEntry.toList_print, TagEntry.afterFile]
    simp [hname, hfile, hcommand]
    exact hfields

/-- The written lines are the lines of the stream. -/
lemma linesOf_stream {lines : List TagLine} (h : ∀ line ∈ lines, line.IsPrintable) :
    linesOf (stream lines).toList = lines.map fun line => dropReturn line.text.toList := by
  induction lines with
  | nil => rfl
  | cons line lines ih =>
    rw [List.forall_mem_cons] at h
    have hchars : (stream (line :: lines)).toList =
        line.text.toList ++ '\n' :: (stream lines).toList := by simp [stream]
    rw [hchars, linesOf_append_lineFeed (lineFeed_not_mem h.1), ih h.2, List.map_cons]

/-- Of a stream exactly its entries are read. -/
lemma entries_stream {lines : List TagLine} (h : ∀ line ∈ lines, line.IsPrintable) :
    entries (stream lines) = (records lines).map TagRecord.toEntry := by
  rw [entries, linesOf_stream h, records, List.filterMap_map, List.map_filterMap]
  refine List.filterMap_congr fun line hline => ?_
  cases line with
  | entry r =>
    rw [Function.comp_apply, text, TagEntry.dropReturn_print (h _ hline),
      TagEntry.ofLine?_print (h _ hline)]
    rfl
  | other text => exact TagEntry.ofLine?_other (h _ hline)

end TagLine

namespace TagStream

/-- The symbols of a stream are those of its entries, one for each whose kind stands for symbols,
and an entry has its position among the entries as its number, wherever other lines stand.  A symbol
has the name of its entry, the file without `./` at its front and with slashes, the last line that
is given, or else the command's, or else the first, and what belongs to the last kind, type and
signature that are given. -/
theorem symbols_of_stream (lines : List TagLine) (h : ∀ line ∈ lines, line.IsPrintable)
    (hcount : (TagLine.records lines).length < wordValues 32) :
    ∃ ordinals : List UInt32,
      ordinals.map UInt32.toNat = List.range (TagLine.records lines).length ∧
      symbols (TagLine.stream lines) =
        ((TagLine.records lines).zip ordinals).filterMap fun (r, ordinal) => r.symbol? ordinal := by
  have hvalue : ∀ i < (TagLine.records lines).length, i.toUInt32.toNat = i := fun i hi =>
    Nat.mod_eq_of_lt (Nat.lt_trans hi hcount)
  refine ⟨(List.range (TagLine.records lines).length).map Nat.toUInt32, ?_, ?_⟩
  · rw [List.map_map]
    exact (List.map_congr_left fun i hi => hvalue i (List.mem_range.mp hi)).trans (List.map_id _)
  · rw [symbols, TagLine.entries_stream h, List.zipIdx_eq_zip_range', ← List.range_eq_range',
      List.length_map, List.zip_map_left, List.zip_map_right, List.filterMap_map,
      List.filterMap_map]
    refine List.filterMap_congr fun p hp => ?_
    exact TagEntry.toSymbol?_toEntry p.1 (hvalue p.2 (List.mem_range.mp (List.of_mem_zip hp).2))

/-- A stream with a header, a blank line, and three entries: a function whose line and kind are
given twice, a prototype, and a type with a line for its command. -/
def threeEntries : List TagLine :=
  [.other "!_TAG_FILE_FORMAT\t2",
    .entry ⟨"f", "././src\\a.c", "/^int f()$/",
      ["p", "line:3", "kind:function", "line:7", "line:x", "", "typeref:typename:int"]⟩,
    .other " \r",
    .entry ⟨"g", "src/a.c", "/^int g();$/", ["p", "line:9"]⟩,
    .entry ⟨"u8", "src/a.h", "12", ["signature:()", "t"]⟩]

/-- The prototype is no symbol, and it is counted all the same. -/
theorem symbols_of_stream_threeEntries :
    (∀ line ∈ threeEntries, line.IsPrintable) ∧
      (TagLine.records threeEntries).length < wordValues 32 ∧
      (symbols (TagLine.stream threeEntries)).map (fun s => (s.name, s.file, s.line.toNat)) =
        [("f", "src/a.c", 7), ("u8", "src/a.h", 12)] ∧
      (symbols (TagLine.stream threeEntries)).map (·.id) =
        [SymbolId.derive ⟨.ctags, .function, "f", "src/a.c", 7, 0⟩,
          SymbolId.derive ⟨.ctags, .alias, "u8", "src/a.h", 12, 2⟩] := by
  have hprintable : ∀ line ∈ threeEntries, line.IsPrintable := by
    simp only [threeEntries, List.forall_mem_cons]
    exact ⟨⟨by decide, .inl (by decide)⟩, by constructor <;> decide,
      ⟨by decide, .inr (List.all_eq_true.mp (by decide))⟩, by constructor <;> decide,
      by constructor <;> decide, List.forall_mem_nil _⟩
  have hcount : (TagLine.records threeEntries).length < wordValues 32 := by decide +kernel
  obtain ⟨ordinals, hordinals, hsymbols⟩ := symbols_of_stream threeEntries hprintable hcount
  obtain rfl : ordinals = [0, 1, 2] := List.map_injective_iff.mpr (fun _ _ => UInt32.toNat_inj.mp)
    (hordinals.trans rfl)
  rw [hsymbols]
  exact ⟨hprintable, hcount, rfl, rfl⟩

end TagStream

end CodeAtlas

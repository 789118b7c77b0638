import CurvePlot.Proofs.Command.StoredText
import CurvePlot.Proofs.Toml.DocumentText
import CurvePlot.Settings.Writing

/-!
# Written settings are read back

The text of settings is a document: comments, the keys of the document itself, and the tables of the
reading rules, of the range inside them, and of the drawing. Each key stands there as a field, a key
with a value and its text (`Settings.readingFields` and so on), so the text is read as the entries
of these fields (`Settings.Storable.entriesOf?_text`). The entries give every part of the settings
(`Settings.ofEntries?_toEntries`): what is missing was left out, and its standard value is none.
-/

namespace CurvePlot

open CurvePlot.Toml

namespace Settings

/-! ### Fields -/

/-- The field of a natural number. -/
def natField (key : String) (n : ℕ) : WrittenField :=
  ⟨key, toString n, .integer n⟩

/-- The field of a string. -/
def stringField (key text : String) : WrittenField :=
  ⟨key, quoted text, .string text⟩

/-- The field of a double. -/
def floatField (key : String) (x : Float) : WrittenField :=
  ⟨key, writeFloat x, .float x⟩

/-- The field of a truth value. -/
def wordField (key : String) (value : Bool) : WrittenField :=
  ⟨key, word value, .boolean value⟩

/-- The fields of the document itself. -/
def ownFields (s : Settings) : List WrittenField :=
  [wordField "grid" s.grid, natField "cache_capacity" s.cacheCapacity]

/-- The fields of the range. -/
def rangeFields (range : PartialRange) : List WrittenField :=
  (range.min.map (floatField "min")).toList ++ (range.max.map (floatField "max")).toList ++
    (range.step.map (floatField "step")).toList

/-- The fields of the reading rules. -/
def readingFields (rules : ReadingRules) : List WrittenField :=
  [⟨"nan_aliases", row rules.missingWords, .array (rules.missingWords.map .string)⟩] ++
    (rules.groupSeparator.map fun c =>
      stringField "thousands_separator" (String.singleton c)).toList ++
    [natField "max_samples" rules.maxSamples]

/-- The fields of the drawing options. -/
def drawingFields (o : DrawingOptions) : List WrittenField :=
  [natField "draw_width" o.width.toNat, natField "draw_height" o.height.toNat,
    natField "margin" o.margin.toNat, stringField "axis_scale_x" (scaleName o.xScale),
    stringField "axis_scale_y" (scaleName o.yScale)]

/-- Whether settings can be written: their counts have 63 bits, and no part of the range is NaN. -/
structure Storable (s : Settings) : Prop where
  /-- The number of outcomes that are kept has 63 bits. -/
  cacheCapacity : s.cacheCapacity ≤ 2 ^ 63 - 1
  /-- So has the number of points. -/
  maxSamples : s.reading.maxSamples ≤ 2 ^ 63 - 1
  /-- The parts of the range are numbers. -/
  defaultRange : ∀ range ∈ s.reading.defaultRange, ∀ part ∈ [range.min, range.max, range.step],
    ∀ x ∈ part, x.isNaN = false

instance (s : Settings) : Decidable s.Storable :=
  decidable_of_iff
    (s.cacheCapacity ≤ 2 ^ 63 - 1 ∧ s.reading.maxSamples ≤ 2 ^ 63 - 1 ∧
      ∀ range ∈ s.reading.defaultRange, ∀ part ∈ [range.min, range.max, range.step],
        ∀ x ∈ part, x.isNaN = false)
    ⟨fun h => ⟨h.1, h.2.1, h.2.2⟩, fun h => ⟨h.1, h.2, h.3⟩⟩

/-- Natural numbers of 63 bits make fields. -/
theorem wellFormed_natField {key : String} (hkey : IsBare key) {n : ℕ} (hn : n < 2 ^ 63) :
    (natField key n).WellFormed := by
  refine ⟨hkey, ?_⟩
  have htext : (toString n).toList = Nat.toDigits 10 n := Nat.toList_repr
  rw [natField, htext]
  exact readsAs_nat hn

/-- Strings make fields. -/
theorem wellFormed_stringField {key : String} (hkey : IsBare key) (text : String) :
    (stringField key text).WellFormed := by
  refine ⟨hkey, ?_⟩
  have hread := readsAs_string text.toList
  rw [String.ofList_toList] at hread
  rw [stringField, quoted, String.toList_ofList]
  exact hread

/-- Doubles that are not NaN make fields. -/
theorem wellFormed_floatField {key : String} (hkey : IsBare key) {x : Float}
    (hx : x.isNaN = false) : (floatField key x).WellFormed :=
  ⟨hkey, readsAs_float hx⟩

/-- Truth values make fields. -/
theorem wellFormed_wordField {key : String} (hkey : IsBare key) (value : Bool) :
    (wordField key value).WellFormed := by
  refine ⟨hkey, ?_⟩
  have hread := readsAs_boolean value
  have hword : (word value).toList =
      if value then ['t', 'r', 'u', 'e'] else ['f', 'a', 'l', 's', 'e'] := by
    cases value <;> rfl
  rw [wordField, hword]
  exact hread

variable {s : Settings}

/-- The document's own keys are well-formed fields. -/
theorem Storable.wellFormed_ownFields (h : s.Storable) : ∀ f ∈ ownFields s, f.WellFormed := by
  have hcache := h.cacheCapacity
  intro f hf
  simp only [ownFields, List.mem_cons, List.not_mem_nil, or_false] at hf
  rcases hf with rfl | rfl
  · exact wellFormed_wordField (by decide) _
  · exact wellFormed_natField (by decide) (by omega)

/-- So are the keys of the range. -/
theorem Storable.wellFormed_rangeFields (h : s.Storable) {range : PartialRange}
    (hrange : range ∈ s.reading.defaultRange) : ∀ f ∈ rangeFields range, f.WellFormed := by
  have hpart := h.defaultRange range hrange
  intro f hf
  simp only [rangeFields, List.mem_append, Option.mem_toList, Option.map_eq_some_iff] at hf
  rcases hf with (⟨x, hx, rfl⟩ | ⟨x, hx, rfl⟩) | ⟨x, hx, rfl⟩
  · exact wellFormed_floatField (by decide) (hpart _ (by simp) x hx)
  · exact wellFormed_floatField (by decide) (hpart _ (by simp) x hx)
  · exact wellFormed_floatField (by decide) (hpart _ (by simp) x hx)

/-- So are the keys of the reading rules. -/
theorem Storable.wellFormed_readingFields (h : s.Storable) :
    ∀ f ∈ readingFields s.reading, f.WellFormed := by
  have hsamples := h.maxSamples
  intro f hf
  simp only [readingFields, List.mem_append, List.mem_singleton, Option.mem_toList,
    Option.map_eq_some_iff] at hf
  rcases hf with (rfl | ⟨c, -, rfl⟩) | rfl
  · refine ⟨show IsBare "nan_aliases" by decide, ?_⟩
    have hrow : (row s.reading.missingWords).toList =
        '[' :: ((String.intercalate ", " (s.reading.missingWords.map fun item =>
          String.ofList (Quoted.write item.toList))).toList ++ [']']) := by
      simp only [row, String.toList_append]
      rfl
    rw [hrow]
    exact readsAs_strings s.reading.missingWords
  · exact wellFormed_stringField (by decide) _
  · exact wellFormed_natField (by decide) (by omega)

/-- So are the keys of the drawing options. -/
theorem wellFormed_drawingFields (o : DrawingOptions) : ∀ f ∈ drawingFields o, f.WellFormed := by
  have hlength : ∀ n : UInt32, n.toNat < 2 ^ 63 := fun n => n.toNat_lt.trans (by norm_num)
  intro f hf
  simp only [drawingFields, List.mem_cons, List.not_mem_nil, or_false] at hf
  rcases hf with rfl | rfl | rfl | rfl | rfl
  · exact wellFormed_natField (by decide) (hlength _)
  · exact wellFormed_natField (by decide) (hlength _)
  · exact wellFormed_natField (by decide) (hlength _)
  · exact wellFormed_stringField (by decide) _
  · exact wellFormed_stringField (by decide) _

/-! ### The text as passages -/

/-- The passages of the document's own keys, behind the comments. -/
def ownPassages (s : Settings) : List Passage :=
  [(wordField "grid" s.grid).passage ((comments ++ [""]).map String.toList),
    (natField "cache_capacity" s.cacheCapacity).passage []]

/-- The passages of the table of the range. -/
def rangePassages : Option PartialRange → List Passage
  | some range => tablePassages "parser" ["default_range"] (rangeFields range)
  | none => []

/-- The passages of the settings. -/
def passages (s : Settings) : List Passage :=
  ownPassages s ++ tablePassages "parser" [] (readingFields s.reading) ++
    rangePassages s.reading.defaultRange ++ tablePassages "plot" [] (drawingFields s.drawing)

/-- The comments and the empty line behind them are blank. -/
theorem isBlank_of_mem_comments {l : String} (h : l ∈ comments ++ [""]) : IsBlank l.toList := by
  have hall : ∀ l ∈ comments, l.toList.head? = some '#' ∧ l.toList.tail.all isPrintable = true := by
    decide
  rcases List.mem_append.mp h with h | h
  · obtain ⟨hmark, hcomment⟩ := hall l h
    obtain ⟨comment, hl⟩ := List.head?_eq_some_iff.mp hmark
    rw [hl] at hcomment
    exact Or.inr ⟨comment, hl, List.all_eq_true.mp hcomment⟩
  · rw [List.mem_singleton.mp h]
    exact Or.inl rfl

/-- The passages are read. -/
theorem Storable.wellFormed_passages (h : s.Storable) : ∀ p ∈ passages s, p.WellFormed := by
  have hown := h.wellFormed_ownFields
  intro p hp
  simp only [passages, List.mem_append] at hp
  rcases hp with ((hp | hp) | hp) | hp
  · simp only [ownPassages, List.mem_cons, List.not_mem_nil, or_false] at hp
    rcases hp with rfl | rfl
    · refine (hown _ List.mem_cons_self).passage fun l hl => ?_
      obtain ⟨comment, hcomment, rfl⟩ := List.mem_map.mp hl
      exact isBlank_of_mem_comments hcomment
    · exact (hown _ (List.mem_cons_of_mem _ List.mem_cons_self)).passage (by simp)
  · exact wellFormed_tablePassages (by decide) (by simp) (by decide)
      h.wellFormed_readingFields p hp
  · cases hrange : s.reading.defaultRange with
    | none =>
      rw [hrange] at hp
      cases hp
    | some range =>
      rw [hrange] at hp
      have hbare : IsBare "default_range" := by decide
      exact wellFormed_tablePassages (by decide) (by simpa using hbare) (by decide)
        (h.wellFormed_rangeFields hrange) p hp
  · exact wellFormed_tablePassages (by decide) (by simp) (by decide)
      (wellFormed_drawingFields s.drawing) p hp

/-- The lines as they are written. -/
def writeLines (lines : List String) : List Char :=
  lines.flatMap fun l => l.toList ++ ['\n']

/-- Lines behind others. -/
theorem writeLines_append (front back : List String) :
    writeLines (front ++ back) = writeLines front ++ writeLines back :=
  List.flatMap_append

/-- The line of a field. -/
def fieldLine (f : WrittenField) : String :=
  line f.key f.text

/-- A field is written as its line, behind the blank lines. -/
theorem write_passage (blanks : List String) (f : WrittenField) :
    (f.passage (blanks.map String.toList)).write = writeLines (blanks ++ [fieldLine f]) := by
  have htext : (fieldLine f).toList = f.key.toList ++ (' ' :: '=' :: ' ' :: f.text.toList) := by
    simp [fieldLine, line]
  simp only [WrittenField.passage, Passage.write, writeLines, List.flatMap_append, List.flatMap_map,
    List.flatMap_singleton, htext]

/-- A table is written as its header behind an empty line, and the lines of its fields. -/
theorem flatMap_write_table (first : String) (others : List String) {header : String}
    (fields : List WrittenField) (hheader : header.toList = '[' ::
      (first.toList ++ (others.flatMap (fun name => '.' :: name.toList) ++ [']']))) :
    (tablePassages first others fields).flatMap Passage.write =
      writeLines (["", header] ++ fields.map fieldLine) := by
  have hfields : (fields.map (WrittenField.passage [])).flatMap Passage.write =
      writeLines (fields.map fieldLine) := by
    rw [writeLines, List.flatMap_map, List.flatMap_map]
    exact List.flatMap_congr fun f _ => (write_passage [] f).trans (by simp [writeLines])
  rw [tablePassages, List.flatMap_cons, hfields, ← hheader]
  simp [Passage.write, writeLines]

/-- A value that may be missing has its field's line, if any. -/
theorem optionalLine_eq {α : Type} (field : α → WrittenField) {key : String} {write : α → String}
    (hfield : ∀ a, fieldLine (field a) = line key (write a)) (o : Option α) :
    optionalLine key write o = (o.map field).toList.map fieldLine := by
  cases o with
  | none => rfl
  | some a => exact congrArg (fun l => [l]) (hfield a).symm

/-- The lines of the table of the range. -/
theorem flatMap_write_range (range : Option PartialRange) :
    (rangePassages range).flatMap Passage.write = writeLines (rangeLines range) := by
  cases range with
  | none => rfl
  | some range =>
    have hlines : rangeLines (some range) =
        ["", "[parser.default_range]"] ++ (rangeFields range).map fieldLine := by
      have hpart (key : String) (part : Option Float) : optionalLine key writeFloat part =
          (part.map (floatField key)).toList.map fieldLine :=
        optionalLine_eq (floatField key) (fun _ => rfl) part
      rw [rangeLines, hpart, hpart, hpart, rangeFields, List.map_append, List.map_append]
      simp only [List.append_assoc]
    rw [hlines]
    exact flatMap_write_table "parser" ["default_range"] (rangeFields range) (by decide)

/-- The lines of the reading rules. -/
theorem readingLines_eq (rules : ReadingRules) :
    readingLines rules = ["", "[parser]"] ++ (readingFields rules).map fieldLine ++
      rangeLines rules.defaultRange := by
  have hseparator : optionalLine "thousands_separator" (fun c => quoted (String.singleton c))
      rules.groupSeparator = (rules.groupSeparator.map fun c =>
        stringField "thousands_separator" (String.singleton c)).toList.map fieldLine :=
    optionalLine_eq (fun c => stringField "thousands_separator" (String.singleton c))
      (fun _ => rfl) rules.groupSeparator
  rw [readingLines, hseparator, readingFields, List.map_append, List.map_append]
  simp only [List.append_assoc]
  rfl

/-- The text is that of its lines. -/
theorem toList_text (s : Settings) : s.text.toList = writeLines s.lines := by
  rw [text, String.toList_join, List.flatMap_map, writeLines]
  exact List.flatMap_congr fun _ _ => by simp

/-- The text is that of its passages. -/
theorem flatMap_write_passages (s : Settings) :
    (passages s).flatMap Passage.write = s.text.toList := by
  have hown : (ownPassages s).flatMap Passage.write =
      writeLines (comments ++ ["", line "grid" (word s.grid),
        line "cache_capacity" (toString s.cacheCapacity)]) := by
    have hfirst := write_passage (comments ++ [""]) (wordField "grid" s.grid)
    have hsecond := write_passage [] (natField "cache_capacity" s.cacheCapacity)
    rw [ownPassages, List.flatMap_cons, List.flatMap_singleton, hfirst]
    exact (congrArg _ hsecond).trans (writeLines_append _ _).symm
  have hdrawing : drawingLines s.drawing =
      ["", "[plot]"] ++ (drawingFields s.drawing).map fieldLine := rfl
  have hreadingHeader : "[parser]".toList = '[' :: ("parser".toList ++ [']']) := by decide
  have hreading := flatMap_write_table "parser" [] (readingFields s.reading) hreadingHeader
  have hplotHeader : "[plot]".toList = '[' :: ("plot".toList ++ [']']) := by decide
  have hplot := flatMap_write_table "plot" [] (drawingFields s.drawing) hplotHeader
  simp only [passages, List.flatMap_append, hown, hreading, hplot, flatMap_write_range,
    toList_text, lines, readingLines_eq, hdrawing, writeLines_append]
  simp only [List.append_assoc]

/-! ### The entries of the text -/

/-- The nodes of fields. -/
def nodes (fields : List WrittenField) : Entries :=
  fields.map fun f => valueNode f.entry

/-- The entry of the range, unless it is missing. -/
def rangeEntries : Option PartialRange → List (String × TomlValue)
  | some range => [("default_range", .table ((rangeFields range).map WrittenField.entry))]
  | none => []

/-- The entries of the reading rules. -/
def readingEntries (rules : ReadingRules) : List (String × TomlValue) :=
  (readingFields rules).map WrittenField.entry ++ rangeEntries rules.defaultRange

/-- The entries of the settings. -/
def toEntries (s : Settings) : List (String × TomlValue) :=
  (ownFields s).map WrittenField.entry ++ [("parser", .table (readingEntries s.reading)),
    ("plot", .table ((drawingFields s.drawing).map WrittenField.entry))]

/-- The values of the nodes of fields. -/
theorem toValues_nodes (fields : List WrittenField) :
    Entries.toValues (nodes fields) = fields.map WrittenField.entry := by
  have hvalues := Entries.toValues_map_valueNode (fields.map WrittenField.entry)
  rwa [List.map_map] at hvalues

/-- The keys of the nodes of fields. -/
theorem keys_nodes (fields : List WrittenField) :
    (nodes fields).map Prod.fst = fields.map WrittenField.key := by
  rw [nodes, List.map_map]
  rfl

/-- The key of a value that may be missing. -/
theorem keys_optional {α : Type} (field : α → WrittenField) {key : String}
    (h : ∀ a, (field a).key = key) (o : Option α) :
    ((o.map field).toList.map WrittenField.key).Sublist [key] := by
  cases o with
  | none => exact List.nil_sublist _
  | some a => exact h a ▸ List.Sublist.refl _

/-- The keys of the reading rules in order, of which some may be missing. -/
theorem keys_readingFields (rules : ReadingRules) :
    ((readingFields rules).map WrittenField.key).Sublist
      ["nan_aliases", "thousands_separator", "max_samples"] := by
  have hseparator := keys_optional
    (fun c => stringField "thousands_separator" (String.singleton c)) (fun _ => rfl)
    rules.groupSeparator
  rw [readingFields, List.map_append, List.map_append]
  exact ((List.Sublist.refl ["nan_aliases"]).append hseparator).append (List.Sublist.refl _)

/-- The keys of the range in order, of which some may be missing. -/
theorem keys_rangeFields (range : PartialRange) :
    ((rangeFields range).map WrittenField.key).Sublist rangeKeys := by
  have hpart (key : String) (part : Option Float) :=
    keys_optional (floatField key) (fun _ => rfl) part
  rw [rangeFields, List.map_append, List.map_append]
  exact ((hpart "min" range.min).append (hpart "max" range.max)).append (hpart "step" range.step)

/-- Lines are added to a draft in turn. -/
theorem foldlM_append_of_eq {front back : List Line} {first second third : Draft}
    (hfront : front.foldlM Draft.add? first = some second)
    (hback : back.foldlM Draft.add? second = some third) :
    (front ++ back).foldlM Draft.add? first = some third := by
  rw [List.foldlM_append, hfront]
  exact hback

/-- The lines of the range fill its table inside that of the reading rules. -/
theorem foldlM_rangePassages {p : Place} (hp : p.IsOpen) (hpath : p.path = ["parser"])
    {front : Entries} (hkey : front.lookup "default_range" = none) (range : Option PartialRange) :
    ∃ inner header, ((rangePassages range).map Passage.line).foldlM Draft.add?
      ⟨p.fill front, p.path⟩ = some ⟨p.fill (front ++ inner), header⟩ ∧
        Entries.toValues inner = rangeEntries range := by
  cases range with
  | none => exact ⟨[], p.path, by rw [List.append_nil]; rfl, rfl⟩
  | some range =>
    have hnodup : ((rangeFields range).map WrittenField.key).Nodup :=
      (keys_rangeFields range).nodup (by decide)
    have hname : Key.ofParts "parser" ["default_range"] = ⟨p.path, "default_range"⟩ := by
      rw [hpath]
      rfl
    refine ⟨[("default_range", .table .opened (nodes (rangeFields range)))], _,
      hp.foldlM_tablePassages "parser" ["default_range"] hname hkey hnodup p.path, ?_⟩
    rw [Entries.toValues, Node.toValue, toValues_nodes]
    rfl

/-- The text is read as the entries of the settings. -/
theorem Storable.entriesOf?_text (h : s.Storable) :
    entriesOf? s.text.toList = some (toEntries s) := by
  have hmark : withoutMark s.text.toList = s.text.toList := by
    rw [toList_text]
    rfl
  have hlines := linesOf?_passages h.wellFormed_passages
  rw [flatMap_write_passages] at hlines
  have hreadingKeys := keys_readingFields s.reading
  have hownKeys : ["grid", "cache_capacity"].Nodup := by decide
  have hown : ((ownPassages s).map Passage.line).foldlM Draft.add? ⟨[], []⟩ =
      some ⟨nodes (ownFields s), []⟩ :=
    Place.isOpen_root.foldlM_assignments ((ownFields s).map WrittenField.entry) [] hownKeys
  have hparserKey : (nodes (ownFields s)).lookup "parser" = none := by
    refine Entries.lookup_eq_none ?_
    rw [keys_nodes]
    exact show "parser" ∉ ["grid", "cache_capacity"] by decide
  have hreading := Place.isOpen_root.foldlM_tablePassages "parser" [] rfl
    hparserKey (hreadingKeys.nodup (by decide)) []
  have hrangeKey : (nodes (readingFields s.reading)).lookup "default_range" = none := by
    refine Entries.lookup_eq_none fun hmem => ?_
    rw [keys_nodes] at hmem
    exact absurd (hreadingKeys.subset hmem) (by decide)
  obtain ⟨inner, header, hrange, hinner⟩ := foldlM_rangePassages
    (Place.isOpen_root.enter hparserKey) rfl hrangeKey s.reading.defaultRange
  have hplotKey : (nodes (ownFields s) ++
      [("parser", Node.table .opened (nodes (readingFields s.reading) ++ inner))]).lookup "plot" =
        none := by
    refine Entries.lookup_eq_none ?_
    rw [List.map_append, keys_nodes]
    exact show "plot" ∉ ["grid", "cache_capacity", "parser"] by decide
  have hdrawingKeys : ((drawingFields s.drawing).map WrittenField.key).Nodup :=
    show drawingKeys.Nodup by decide
  have hdrawing := Place.isOpen_root.foldlM_tablePassages "plot" [] rfl
    hplotKey hdrawingKeys header
  have hdraft := foldlM_append_of_eq
    (foldlM_append_of_eq (foldlM_append_of_eq hown hreading) hrange) hdrawing
  rw [← List.map_append, ← List.map_append, ← List.map_append] at hdraft
  have hentries : Entries.toValues (nodes (ownFields s) ++
      [("parser", .table .opened (nodes (readingFields s.reading) ++ inner))] ++
        [("plot", .table .opened (nodes (drawingFields s.drawing)))]) = toEntries s := by
    simp only [Entries.toValues_append, Entries.toValues, Node.toValue, toValues_nodes, hinner]
    rw [List.append_assoc]
    rfl
  simp only [entriesOf?, hmark, hlines, Option.bind_eq_bind, Option.bind_some]
  refine (congrArg (Option.bind · _) hdraft).trans ?_
  exact congrArg some hentries

/-! ### The settings of the entries -/

/-- A natural number is a count. -/
theorem count?_nat (n : ℕ) : count? (.integer n) = some n := by
  simp [count?, TomlValue.asInteger?]

/-- A length is a count below `2 ^ 32`. -/
theorem length?_toNat (n : UInt32) : length? (.integer n.toNat) = some n := by
  have hcount := count?_nat n.toNat
  have hn := n.toNat_lt_size
  simp only [length?, hcount, hn, if_true, UInt32.ofNat_toNat]

/-- A row of strings is a list of them. -/
theorem strings?_row (items : List String) :
    strings? (.array (items.map .string)) = some items := by
  change (items.map TomlValue.string).mapM TomlValue.asString? = some items
  induction items with
  | nil => rfl
  | cons item items ih =>
    rw [List.map_cons, List.mapM_cons, ih]
    rfl

/-- A string of one character is the character. -/
theorem character?_singleton (c : Char) :
    character? (.string (String.singleton c)) = some c := by
  have hc := String.toList_singleton c
  simp [character?, TomlValue.asString?, hc]

/-- The name of a scale is that of the scale. -/
theorem scale?_scaleName (scale : AxisScale) :
    scale? (.string (scaleName scale)) = some scale := by
  cases scale <;> rfl

/-- The fields of a range give the range. -/
theorem range?_rangeFields (range : PartialRange) :
    range? (.table ((rangeFields range).map WrittenField.entry)) = some range := by
  obtain ⟨min, max, step⟩ := range
  cases min <;> cases max <;> cases step <;> rfl

/-- The fields of the drawing options give the options. -/
theorem drawing?_drawingFields (o : DrawingOptions) :
    drawing? (.table ((drawingFields o).map WrittenField.entry)) = some o := by
  change (do
    let width ← length? (.integer o.width.toNat)
    let height ← length? (.integer o.height.toNat)
    let margin ← length? (.integer o.margin.toNat)
    let xScale ← scale? (.string (scaleName o.xScale))
    let yScale ← scale? (.string (scaleName o.yScale))
    some (DrawingOptions.mk width height margin xScale yScale)) = some o
  simp only [length?_toNat, scale?_scaleName, Option.bind_eq_bind, Option.bind_some]

/-- The entries of the reading rules give the rules. -/
theorem reading?_readingEntries (rules : ReadingRules) :
    reading? (.table (readingEntries rules)) = some rules := by
  have hwords : entry? (readingEntries rules) "nan_aliases" ReadingRules.standard.missingWords
      strings? = some rules.missingWords := strings?_row rules.missingWords
  have hseparator : entry? (readingEntries rules) "thousands_separator"
      ReadingRules.standard.groupSeparator (fun v => (character? v).map some) =
        some rules.groupSeparator := by
    obtain ⟨words, separator, samples, range⟩ := rules
    cases separator with
    | none => cases range <;> rfl
    | some c => exact congrArg (Option.map some) (character?_singleton c)
  have hsamples : entry? (readingEntries rules) "max_samples" ReadingRules.standard.maxSamples
      count? = some rules.maxSamples := by
    obtain ⟨words, separator, samples, range⟩ := rules
    cases separator <;> exact count?_nat samples
  have hrange : entry? (readingEntries rules) "default_range" ReadingRules.standard.defaultRange
      (fun v => (range? v).map some) = some rules.defaultRange := by
    obtain ⟨words, separator, samples, range⟩ := rules
    cases range with
    | none => cases separator <;> rfl
    | some range => cases separator <;> exact congrArg (Option.map some) (range?_rangeFields range)
  have hentries : (TomlValue.table (readingEntries rules)).asRecord? readingKeys =
      some (readingEntries rules) := rfl
  simp only [reading?, hentries, hwords, hseparator, hsamples, hrange, Option.bind_eq_bind,
    Option.bind_some]

/-- The entries give the settings. -/
theorem ofEntries?_toEntries (s : Settings) : ofEntries? (toEntries s) = some s := by
  change (do
    let grid ← TomlValue.asBool? (.boolean s.grid)
    let capacity ← count? (.integer s.cacheCapacity)
    let reading ← reading? (.table (readingEntries s.reading))
    let drawing ← drawing? (.table ((drawingFields s.drawing).map WrittenField.entry))
    some (Settings.mk grid capacity reading drawing)) = some s
  simp only [TomlValue.asBool?, count?_nat, reading?_readingEntries, drawing?_drawingFields,
    Option.bind_eq_bind, Option.bind_some]

/-- The text of settings is read back as these settings, and so are the settings in any file that
the text was written to. -/
theorem ofText_text (h : s.Storable) :
    ofText? s.text.toList = some s ∧ ofText s.text.toList = s ∧
      ∀ {desk later : Desk} {path : String},
        Host.write (m := StateM Desk) path (.text s.text) desk = (.ok (), later) →
          Command.settingsIn (m := StateM Desk) path later = (s, later) := by
  have hread : ofText? s.text.toList = some s := by
    rw [ofText?, h.entriesOf?_text, Option.bind_some, ofEntries?_toEntries]
  have hsettings : ofText s.text.toList = s := by
    rw [ofText, hread, Option.getD_some]
  refine ⟨hread, hsettings, fun {desk later path} hwrite => ?_⟩
  rw [Command.settingsIn_of_write hwrite, hsettings]

/-- Settings with a quote, a backslash and a line break among their words, a negative zero and an
infinite step are read back, also from a file. -/
theorem ofText_text_range :
    let s : Settings :=
      ⟨true, 0, ⟨["", "n/a", "\"a\\b\"", "two\nlines"], some '\'', 2 ^ 63 - 1,
        some ⟨some (-0.0), none, some (1 / 0)⟩⟩, ⟨0, 4294967295, 10, .log, .linear⟩⟩
    s.Storable ∧ ofText? s.text.toList = some s ∧ ∃ later,
      Host.write (m := StateM Desk) "settings.toml" (.text s.text) ⟨⟨[], [], ["home"]⟩, "", [], []⟩ =
          (.ok (), later) ∧
        Command.settingsIn (m := StateM Desk) "settings.toml" later = (s, later) := by
  intro s
  have h : s.Storable := by decide +kernel
  have hfile : FilePath.ofText "settings.toml" = ⟨["settings.toml"], false, false⟩ := by
    decide +kernel
  have htree : FileTree.write ⟨[], [], ["home"]⟩ "settings.toml" (.text s.text) =
      .ok ⟨[(["home", "settings.toml"], .text s.text)], [], ["home"]⟩ := by
    rw [FileTree.write, hfile]
    rfl
  have hwrite := Desk.write_eq ⟨⟨[], [], ["home"]⟩, "", [], []⟩ "settings.toml" (.text s.text)
  rw [htree] at hwrite
  exact ⟨h, (ofText_text h).1, _, hwrite, (ofText_text h).2.2 hwrite⟩

end Settings

end CurvePlot

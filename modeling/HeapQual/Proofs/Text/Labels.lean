import HeapQual.Proofs.Drawing
import HeapQual.Proofs.Text.Replacing

/-!
# Labels in quotes

The labels of a picture stand between quotes, and a backslash in them makes the next character stand
for itself.  A reader who knows that (`Dot.readQuoted`) gets an escaped label back as it was, and
goes on to what follows it: reading an escaped label and then a text is reading the text, with the
label before it (`Dot.readQuoted_escapeChars_append`).

So a label ends with its own closing quote and nowhere else.  If the shapes and lines of a style
have no quotes in them, the quoted texts of a whole picture are its labels
(`Dot.quotedTexts_picture`).
-/

namespace HeapQual

namespace Dot

/-! ## Escaping and reading -/

/-- Escaping doubles the backslashes, and then puts a backslash before each quote. -/
lemma escapeChars_eq (label : List Char) : escapeChars label =
    (label.flatMap fun c => if c = '\\' then ['\\', '\\'] else [c]).flatMap fun c =>
      if c = '"' then ['\\', '"'] else [c] := by
  induction label with
  | nil => rfl
  | cons c label ih =>
    rw [List.flatMap_cons, List.flatMap_append, ← ih, escapeChars]
    by_cases hquote : c = '"'
    · simp [hquote]
    · by_cases hbackslash : c = '\\'
      · simp [hbackslash]
      · simp [hquote, hbackslash]

lemma escape_eq_replace (label : String) :
    escape label = (label.replace '\\' "\\\\").replace '"' "\\\"" := by
  refine String.toList_injective ?_
  rw [Text.toList_replace, Text.toList_replace, escape, String.toList_ofList, escapeChars_eq]
  rfl

/-- How the reading of a quoted text ends. -/
inductive Ending where
  | unclosed
  | dangling
  | closed (rest : List Char)
  deriving DecidableEq

/-- Read a quoted text, of which the first character stands for itself if it is escaped. -/
def readFrom : (escaped : Bool) → List Char → List Char × Ending
  | false, [] => ([], .unclosed)
  | true, [] => ([], .dangling)
  | true, c :: cs => (c :: (readFrom false cs).1, (readFrom false cs).2)
  | false, c :: cs =>
    if c = '"' then ([], .closed cs)
    else if c = '\\' then readFrom true cs
    else (c :: (readFrom false cs).1, (readFrom false cs).2)

/-- Read a quoted text up to the quote that closes it. -/
def readQuoted (text : List Char) : List Char × Ending := readFrom false text

/-- An escaped label is read as it was, and does not change how the rest is read. -/
lemma readQuoted_escapeChars_append (label rest : List Char) :
    readQuoted (escapeChars label ++ rest) =
      (label ++ (readQuoted rest).1, (readQuoted rest).2) := by
  unfold readQuoted
  induction label with
  | nil => rfl
  | cons c label ih =>
    by_cases hspecial : c = '"' ∨ c = '\\'
    · have hescape : escapeChars (c :: label) = '\\' :: c :: escapeChars label := by
        rw [escapeChars, if_pos (by simpa using hspecial)]
      rw [hescape, List.cons_append, List.cons_append, readFrom, if_neg (by decide), if_pos rfl,
        readFrom, ih]
      rfl
    · have hescape : escapeChars (c :: label) = c :: escapeChars label := by
        rw [escapeChars, if_neg (by simpa using hspecial)]
      obtain ⟨hquote, hbackslash⟩ := not_or.1 hspecial
      rw [hescape, List.cons_append, readFrom, if_neg hquote, if_neg hbackslash, ih]
      rfl

lemma toList_escape (label : String) : (escape label).toList = escapeChars label.toList :=
  String.toList_ofList

/-- Reading an escaped label alone meets no quote that closes it and no backslash at the end. -/
lemma readQuoted_escape (label : String) :
    readQuoted (escape label).toList = (label.toList, .unclosed) := by
  have h := readQuoted_escapeChars_append label.toList []
  have hnil : readQuoted [] = ([], .unclosed) := rfl
  rw [List.append_nil, hnil, List.append_nil, ← toList_escape] at h
  exact h

/-- An escaped label ends with the quote that comes after it. -/
lemma readQuoted_escape_quote (label : String) (rest : List Char) :
    readQuoted ((escape label).toList ++ '"' :: rest) = (label.toList, .closed rest) := by
  have hquote : readQuoted ('"' :: rest) = ([], .closed rest) := rfl
  rw [toList_escape, readQuoted_escapeChars_append, hquote, List.append_nil]

lemma escape_injective : Function.Injective escape := by
  intro label label' h
  have hread := readQuoted_escape label
  rw [h, readQuoted_escape] at hread
  exact String.toList_injective (Prod.mk.inj hread).1.symm

/-! ## The quoted texts of a text -/

lemma length_lt_of_readFrom {escaped : Bool} {text rest : List Char}
    (h : (readFrom escaped text).2 = .closed rest) : rest.length < text.length := by
  fun_induction readFrom escaped text with
  | case1 => cases h
  | case2 => cases h
  | case3 c cs ih => exact (ih h).trans (Nat.lt_succ_self _)
  | case4 cs =>
    cases h
    exact Nat.lt_succ_self _
  | case5 cs _ ih => exact (ih h).trans (Nat.lt_succ_self _)
  | case6 c cs _ _ ih => exact (ih h).trans (Nat.lt_succ_self _)

/-- The texts that stand between quotes, if each of them is closed. -/
def quotedTexts : List Char → Option (List (List Char))
  | [] => some []
  | c :: cs =>
    if c = '"' then
      match h : (readQuoted cs).2 with
      | .closed rest =>
        have : rest.length < cs.length := length_lt_of_readFrom h
        (quotedTexts rest).map ((readQuoted cs).1 :: ·)
      | _ => none
    else quotedTexts cs
  termination_by text => text.length

lemma quotedTexts_of_not_mem {plain : List Char} (h : '"' ∉ plain) (rest : List Char) :
    quotedTexts (plain ++ rest) = quotedTexts rest := by
  induction plain with
  | nil => rfl
  | cons c plain ih =>
    obtain ⟨hc, hplain⟩ := not_or.1 (mt List.mem_cons.2 h)
    rw [List.cons_append, quotedTexts, if_neg (Ne.symm hc), ih hplain]

lemma quotedTexts_quote {text label rest : List Char}
    (h : readQuoted text = (label, .closed rest)) :
    quotedTexts ('"' :: text) = (quotedTexts rest).map (label :: ·) := by
  rw [quotedTexts, if_pos rfl]
  split
  · rename_i rest' hrest
    have hlabel : (readQuoted text).1 = label := congrArg Prod.fst h
    obtain rfl : rest' = rest := Ending.closed.inj (hrest.symm.trans (congrArg Prod.snd h))
    exact congrArg (fun label => (quotedTexts rest').map (label :: ·)) hlabel
  · rename_i hother
    exact absurd (congrArg Prod.snd h) (hother rest)

/-! ## Lines and pictures -/

/-- The label of a line. -/
def Line.label? : Line → Option String
  | node _ _ label => some label
  | operand _ _ _ => none
  | edge _ _ _ label => label

/-- A line up to the quote that opens its label, or the whole line if it has none. -/
def Line.opening : Line → String
  | node i shape _ => toString i ++ " [shape=" ++ shape ++ ", label="
  | operand i j style => toString i ++ " -> " ++ toString j ++ " [style=" ++ style ++ "];\n"
  | edge right left style none =>
    toString right ++ " -> " ++ toString left ++ " [style=" ++ style ++ "];\n"
  | edge right left style (some _) =>
    toString right ++ " -> " ++ toString left ++ " [style=" ++ style ++ ", label="

/-- The shape or the style of a line. -/
def Line.styling : Line → String
  | node _ shape _ => shape
  | operand _ _ style => style
  | edge _ _ style _ => style

variable {line : Line} {lines : List Line} {label : String}

/-- A line opens its label with a quote, and ends after it. -/
lemma Line.toList_text_of_some (h : line.label? = some label) : line.text.toList =
    line.opening.toList ++ '"' :: ((escape label).toList ++ '"' :: "];\n".toList) := by
  cases line with
  | node i shape label' =>
    cases h
    have htext : (node i shape label).text =
        toString i ++ " [shape=" ++ shape ++ ", " ++ labelText label ++ "];\n" := rfl
    simp [htext, Line.opening, labelText]
  | operand i j style => cases h
  | edge right left style label' =>
    cases h
    have htext : (edge right left style (some label)).text = toString right ++ " -> " ++
        toString left ++ " [style=" ++ style ++ ", " ++ labelText label ++ "];\n" := rfl
    simp [htext, Line.opening, labelText]

lemma Line.text_of_none (h : line.label? = none) : line.text = line.opening := by
  cases line with
  | node i shape label' => cases h
  | operand i j style => rfl
  | edge right left style label' =>
    cases h
    rfl

lemma quote_not_mem_toDigits (n : Nat) : '"' ∉ Nat.toDigits 10 n := fun h =>
  absurd (Nat.isDigit_of_mem_toDigits (by decide) (by decide) h) (by decide)

lemma Line.quote_not_mem_opening (h : '"' ∉ line.styling.toList) : '"' ∉ line.opening.toList := by
  rcases line with ⟨i, shape, label⟩ | ⟨i, j, style⟩ | ⟨right, left, style, _ | label⟩
  · have h : '"' ∉ shape.toList := h
    simp [Line.opening, h, quote_not_mem_toDigits]
  all_goals
    have h : '"' ∉ style.toList := h
    simp [Line.opening, h, quote_not_mem_toDigits]

/-- Of a line, its label is quoted and nothing else. -/
lemma quotedTexts_line (h : '"' ∉ line.styling.toList) (rest : List Char) :
    quotedTexts (line.text.toList ++ rest) =
      (quotedTexts rest).map (line.label?.toList.map String.toList ++ ·) := by
  have hopening := Line.quote_not_mem_opening h
  cases hlabel : line.label? with
  | none =>
    rw [Line.text_of_none hlabel, quotedTexts_of_not_mem hopening]
    simp
  | some label =>
    have hread : readQuoted ((escape label).toList ++ '"' :: ("];\n".toList ++ rest)) =
        (label.toList, .closed ("];\n".toList ++ rest)) := readQuoted_escape_quote label _
    have hend : quotedTexts ("];\n".toList ++ rest) = quotedTexts rest :=
      quotedTexts_of_not_mem (by decide) rest
    rw [Line.toList_text_of_some hlabel, List.append_assoc, quotedTexts_of_not_mem hopening,
      List.cons_append, List.append_assoc, List.cons_append, quotedTexts_quote hread, hend]
    rfl

/-- Of any lines, the labels are quoted and nothing else. -/
lemma quotedTexts_lines (h : ∀ line ∈ lines, '"' ∉ line.styling.toList) (rest : List Char) :
    quotedTexts ((String.join (lines.map Line.text)).toList ++ rest) =
      (quotedTexts rest).map ((lines.filterMap Line.label?).map String.toList ++ ·) := by
  induction lines with
  | nil => simp
  | cons line lines ih =>
    obtain ⟨hline, hlines⟩ := List.forall_mem_cons.1 h
    rw [List.map_cons, String.join_cons, String.toList_append, List.append_assoc,
      quotedTexts_line hline, ih hlines, Option.map_map]
    congr 1
    funext texts
    cases hlabel : line.label? with
    | none => simp [hlabel]
    | some label => simp [hlabel]

/-- No text of the style has a quote in it. -/
def Style.Unquoted (style : Style) : Prop :=
  ∀ text ∈ [style.variableShape, style.operatorShape, style.edgeLine, style.operandLine],
    '"' ∉ text.toList

instance (style : Style) : Decidable style.Unquoted :=
  inferInstanceAs (Decidable (∀ text ∈ [_, _, _, _], _))

example : Style.plain.Unquoted := by decide

variable {τ : Type} {g : Graph τ} {style : Style} {roots : List StoreId}

/-- A store is declared in one of the shapes of the style. -/
lemma styling_of_nodeLine {i : Nat} (h : nodeLine g style i = .ok line) :
    line.styling = style.variableShape ∨ line.styling = style.operatorShape := by
  obtain ⟨label, -, h⟩ := bind_eq_ok_iff.1 h
  cases h
  exact (em _).imp (fun hvariable => if_pos hvariable) (fun hoperator => if_neg hoperator)

lemma quote_not_mem_declarations (hstyle : style.Unquoted) {nodes : List Nat}
    {declarations : List Line} (h : nodes.mapM (nodeLine g style) = .ok declarations) :
    ∀ line ∈ declarations, '"' ∉ line.styling.toList := by
  rw [mapM_eq_ok_iff] at h
  induction h with
  | nil => exact fun line hline => absurd hline List.not_mem_nil
  | cons hline _ ih =>
    refine List.forall_mem_cons.2 ⟨hstyle _ ?_, ih⟩
    rcases styling_of_nodeLine hline with heq | heq <;> simp [heq]

/-- Each line of a picture is drawn as the style says. -/
lemma quote_not_mem_styling (hstyle : style.Unquoted) (h : Dot.lines g style roots = .ok lines) :
    ∀ line ∈ lines, '"' ∉ line.styling.toList := by
  obtain ⟨nodes, declarations, -, hdeclarations, -, rfl⟩ := lines_eq_ok_iff.1 h
  intro line hline
  rcases List.mem_append.1 hline with hline | hline
  · rcases List.mem_append.1 hline with hline | hline
    · exact quote_not_mem_declarations hstyle hdeclarations line hline
    · obtain ⟨i, -, hline⟩ := List.mem_flatMap.1 hline
      obtain ⟨x, -, rfl⟩ := List.mem_map.1 hline
      exact hstyle _ (by simp [Line.styling])
  · obtain ⟨edge, -, rfl⟩ := List.mem_map.1 hline
    exact hstyle _ (by simp [edgeLine, Line.styling])

/-- The quoted texts of a picture are its labels. -/
lemma quotedTexts_picture (hstyle : style.Unquoted) (h : Dot.lines g style roots = .ok lines) :
    ∃ picture, render g style roots = .ok picture ∧
      quotedTexts picture.toList = some ((lines.filterMap Line.label?).map String.toList) := by
  refine ⟨_, bind_eq_ok_iff.2 ⟨lines, h, rfl⟩, ?_⟩
  have hhead (rest : List Char) : quotedTexts ("digraph \x7b\nrankdir=BT;\n".toList ++ rest) =
      quotedTexts rest := quotedTexts_of_not_mem (by decide) rest
  have htail : quotedTexts "\x7d\n".toList = some [] := by
    have hplain : quotedTexts ("\x7d\n".toList ++ []) = quotedTexts [] :=
      quotedTexts_of_not_mem (by decide) []
    rwa [List.append_nil, quotedTexts] at hplain
  rw [String.toList_append, String.toList_append, List.append_assoc, hhead,
    quotedTexts_lines (quote_not_mem_styling hstyle h), htail]
  simp

/-- Labels are escaped faithfully.  Backslashes are doubled first, and then each quote gets a
backslash.  An escaped label is read back as it was, without meeting a quote that closes it or a
backslash at its end, so different labels stay different.  In a line, the quoted text is the label
up to the quote that the line ends with.  Of a whole picture, the quoted texts are its labels. -/
theorem labels_read_back :
    (∀ label, escape label = (label.replace '\\' "\\\\").replace '"' "\\\"") ∧
    (∀ label, readQuoted (escape label).toList = (label.toList, .unclosed)) ∧
    Function.Injective escape ∧
    (∀ (line : Line) (label : String), line.label? = some label →
      ∃ rest, line.text.toList = line.opening.toList ++ '"' :: rest ∧
        readQuoted rest = (label.toList, .closed "];\n".toList)) ∧
    ∀ (τ : Type) (g : Graph τ) (style : Style) (roots : List StoreId) (lines : List Line),
      style.Unquoted → Dot.lines g style roots = .ok lines →
      ∃ picture, render g style roots = .ok picture ∧
        quotedTexts picture.toList = some ((lines.filterMap Line.label?).map String.toList) :=
  ⟨escape_eq_replace, readQuoted_escape, escape_injective,
    fun _ label h => ⟨_, Line.toList_text_of_some h, readQuoted_escape_quote label _⟩,
    fun _ _ _ _ _ hstyle h => quotedTexts_picture hstyle h⟩

/-- Names and a message with quotes and backslashes in them, also at their ends. -/
def spikyScript : List (Command Int) :=
  [.makeLocation "\"x\\" 0, .storeVariable .internal "\\\"", .allocate .internal ⟨0⟩ ⟨0⟩,
    .includeStore .internal "join \"then\"\\" ⟨1⟩ ⟨0⟩]

/-- The picture of both stores. -/
def spikyLines : List Line :=
  [.node 0 "ellipse" "\\\"", .node 1 "box" "ref(\"x\\, \\\")", .operand 1 0 "dashed",
    .edge 0 1 "solid" (some "join \"then\"\\")]

/-- Each of the three labels is read back from the picture. -/
theorem labels_read_back_spiky :
    Style.labelling.Unquoted ∧ ∃ (s : Session Level Int) (picture : String),
      Dot.lines s.graph .labelling [] = .ok spikyLines ∧
      render s.graph .labelling [] = .ok picture ∧
      quotedTexts picture.toList =
        some ["\\\"".toList, "ref(\"x\\, \\\")".toList, "join \"then\"\\".toList] := by
  have hstyle : Style.labelling.Unquoted := by decide
  have hrun : (Session.follow (fun _ _ => True) (Session.start ⟨2, false⟩ Level.mk)
      spikyScript).any fun s => Dot.lines s.graph .labelling [] = .ok spikyLines := by
    decide +kernel
  simp only [Option.any_eq_true, decide_eq_true_eq] at hrun
  obtain ⟨s, -, hlines⟩ := hrun
  obtain ⟨picture, hpicture, htexts⟩ :=
    labels_read_back.2.2.2.2 Int s.graph .labelling [] spikyLines hstyle hlines
  exact ⟨hstyle, s, picture, hlines, hpicture, htexts⟩

end Dot

end HeapQual

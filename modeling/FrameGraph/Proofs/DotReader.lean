import FrameGraph.Dot
import Mathlib.Tactic.SplitIfs

/-!
# Reading a drawing back

The text of a drawing is read without knowing how it was written. A scanner takes
it apart, one character after another: words, arrows, other characters by
themselves, and what stands between quotes, where a backslash and the character
after it are one unit and the first quote that is not part of such a unit ends the
string. A text that ends inside of a string has no parts. Parts make statements,
each up to a semicolon, and a statement is read on its own.

What is written by `Dot.write` is read as the statements that were written, with
all labels as they were before they were escaped.
-/
namespace FrameGraph.Dot

/-- The parts of a text. A string stands as it is between its quotes. -/
inductive Token where
  | word (text : List Char)
  | quoted (raw : List Char)
  | arrow
  | symbol (c : Char)
deriving DecidableEq, Repr

/-- Where the scanner is. What it has read of a part is kept last character first. -/
inductive Mode where
  | between
  | word (read : List Char)
  | dash
  | quoted (read : List Char)
  | escaped (read : List Char)
deriving DecidableEq, Repr

/-- The parts found so far, the last one first. -/
structure Scanner where
  tokens : List Token := []
  mode : Mode := .between
deriving DecidableEq, Repr

def isWordChar (c : Char) : Bool := c.isAlphanum || c == '_'

namespace Scanner

/-- A character that is not part of what was read before. -/
def start (tokens : List Token) (c : Char) : Scanner :=
  if isWordChar c then ⟨tokens, .word [c]⟩
  else if c.isWhitespace then ⟨tokens, .between⟩
  else if c = '"' then ⟨tokens, .quoted []⟩
  else if c = '-' then ⟨tokens, .dash⟩
  else ⟨.symbol c :: tokens, .between⟩

def step (s : Scanner) (c : Char) : Scanner :=
  match s.mode with
  | .between => start s.tokens c
  | .word read =>
      if isWordChar c then ⟨s.tokens, .word (c :: read)⟩
      else start (.word read.reverse :: s.tokens) c
  | .dash =>
      if c = '>' then ⟨.arrow :: s.tokens, .between⟩ else start (.symbol '-' :: s.tokens) c
  | .quoted read =>
      if c = '"' then ⟨.quoted read.reverse :: s.tokens, .between⟩
      else if c = '\\' then ⟨s.tokens, .escaped read⟩
      else ⟨s.tokens, .quoted (c :: read)⟩
  | .escaped read => ⟨s.tokens, .quoted (c :: '\\' :: read)⟩

/-- The parts of a text that ends here. -/
def finish (s : Scanner) : Option (List Token) :=
  match s.mode with
  | .between => some s.tokens.reverse
  | .word read => some (.word read.reverse :: s.tokens).reverse
  | .dash => some (.symbol '-' :: s.tokens).reverse
  | .quoted _ => none
  | .escaped _ => none

end Scanner

def lex (text : String) : Option (List Token) :=
  (text.toList.foldl Scanner.step {}).finish

/-- The text has these parts wherever it stands between two others. -/
def Lexes (text : List Char) (tokens : List Token) : Prop :=
  ∀ before, text.foldl Scanner.step ⟨before, .between⟩ = ⟨tokens.reverse ++ before, .between⟩

namespace Lexes

variable {text text' word : List Char} {tokens tokens' : List Token}

theorem append (h : Lexes text tokens) (h' : Lexes text' tokens') :
    Lexes (text ++ text') (tokens ++ tokens') := by
  intro before
  rw [List.foldl_append, h before, h' (tokens.reverse ++ before), List.reverse_append,
    List.append_assoc]

theorem lex_eq {text : String} (h : Lexes text.toList tokens) : lex text = some tokens := by
  have hscan : text.toList.foldl Scanner.step {} = ⟨tokens.reverse ++ [], .between⟩ := h []
  unfold lex
  rw [hscan, List.append_nil]
  exact congrArg some tokens.reverse_reverse

theorem foldl_word (hword : ∀ c ∈ word, isWordChar c = true) (before : List Token)
    (read : List Char) : word.foldl Scanner.step ⟨before, .word read⟩ =
      ⟨before, .word (word.reverse ++ read)⟩ := by
  induction word generalizing read with
  | nil => rfl
  | cons c word ih =>
      obtain ⟨hc, hword⟩ := List.forall_mem_cons.mp hword
      have hstep : Scanner.step ⟨before, .word read⟩ c = ⟨before, .word (c :: read)⟩ := by
        simp [Scanner.step, hc]
      rw [List.foldl_cons, hstep, ih hword, List.reverse_cons, List.append_assoc]
      rfl

/-- A word ends where a character follows that no word has; the scanner starts
anew with that character. -/
theorem word_append (hne : word ≠ []) (hword : ∀ c ∈ word, isWordChar c = true)
    (h : Lexes text tokens) (hend : text.head?.map isWordChar = some false) :
    Lexes (word ++ text) (.word word :: tokens) := by
  intro before
  obtain ⟨first, word, rfl⟩ := List.exists_cons_of_ne_nil hne
  obtain ⟨hfirst, hword⟩ := List.forall_mem_cons.mp hword
  have hstart : Scanner.step ⟨before, .between⟩ first = ⟨before, .word [first]⟩ := by
    simp [Scanner.step, Scanner.start, hfirst]
  have hread : (first :: word).foldl Scanner.step ⟨before, .between⟩ =
      ⟨before, .word (word.reverse ++ [first])⟩ := by
    rw [List.foldl_cons, hstart, foldl_word hword]
  cases text with
  | nil => cases hend
  | cons c text =>
      have hc : isWordChar c = false := Option.some.inj hend
      have hstep : Scanner.step ⟨before, .word (word.reverse ++ [first])⟩ c =
          Scanner.step ⟨.word (first :: word) :: before, .between⟩ c := by
        simp [Scanner.step, hc]
      have hrest := h (.word (first :: word) :: before)
      rw [List.foldl_cons] at hrest
      rw [List.foldl_append, hread, List.foldl_cons, hstep, hrest, List.reverse_cons,
        List.append_assoc]
      rfl

theorem foldl_escapeChars (text : List Char) (before : List Token) (read : List Char) :
    (escapeChars text).foldl Scanner.step ⟨before, .quoted read⟩ =
      ⟨before, .quoted ((escapeChars text).reverse ++ read)⟩ := by
  induction text generalizing read with
  | nil => rfl
  | cons c text ih =>
      unfold escapeChars
      split_ifs with hc
      -- A quote of the text is met behind its backslash, so it does not end the string.
      · rw [List.foldl_cons, List.foldl_cons]
        have hunit : (Scanner.step (Scanner.step ⟨before, .quoted read⟩ '\\') c) =
            ⟨before, .quoted (c :: '\\' :: read)⟩ := rfl
        rw [hunit, ih]
        simp
      · have hstep : Scanner.step ⟨before, .quoted read⟩ c = ⟨before, .quoted (c :: read)⟩ := by
          simp only [not_or] at hc
          simp [Scanner.step, hc]
        rw [List.foldl_cons, hstep, ih]
        simp

/-- Between quotes an escaped text is one string, whatever it was. -/
theorem quoted (text : List Char) :
    Lexes ('"' :: (escapeChars text ++ ['"'])) [.quoted (escapeChars text)] := by
  intro before
  have hopen : Scanner.step ⟨before, .between⟩ '"' = ⟨before, .quoted []⟩ := rfl
  have hclose : Scanner.step ⟨before, .quoted (escapeChars text).reverse⟩ '"' =
      ⟨.quoted (escapeChars text) :: before, .between⟩ := by
    simp [Scanner.step]
  rw [List.foldl_cons, hopen, List.foldl_append, foldl_escapeChars, List.append_nil,
    List.foldl_cons, hclose]
  rfl

end Lexes

/-- Every pair of a backslash and a character is that character. -/
def unescape : List Char → List Char
  | [] => []
  | [c] => [c]
  | c :: c' :: rest => if c = '\\' then c' :: unescape rest else c :: unescape (c' :: rest)

theorem unescape_cons {c : Char} (hc : c ≠ '\\') (rest : List Char) :
    unescape (c :: rest) = c :: unescape rest := by
  cases rest with
  | nil => rfl
  | cons c' rest => exact if_neg hc

theorem unescape_escapeChars (text : List Char) : unescape (escapeChars text) = text := by
  induction text with
  | nil => rfl
  | cons c text ih =>
      unfold escapeChars
      split_ifs with hc
      · have hunit : unescape ('\\' :: c :: escapeChars text) = c :: unescape (escapeChars text) :=
          rfl
        rw [hunit, ih]
      · have hplain : c ≠ '\\' := fun heq => hc (.inl heq)
        rw [unescape_cons hplain, ih]

/-- What a statement of a drawing says. Attributes stand with their values, in
which nothing is escaped. -/
inductive Item where
  | setting (name value : String)
  | defaults (kind : String) (attributes : List (String × String))
  | node (id : String) (attributes : List (String × String))
  | edge (source target : String) (attributes : List (String × String))
deriving DecidableEq, Repr

def Token.value? : Token → Option String
  | .word text => some (String.ofList text)
  | .quoted raw => some (String.ofList (unescape raw))
  | .arrow => none
  | .symbol _ => none

/-- Attributes, with commas between them, up to a closing bracket. -/
def attributes? : List Token → Option (List (String × String))
  | .word name :: .symbol '=' :: token :: .symbol c :: rest => do
      let value ← token.value?
      if c = ',' then
        let others ← attributes? rest
        return (String.ofList name, value) :: others
      else if c = ']' ∧ rest = [] then return [(String.ofList name, value)]
      else none
  | _ => none

/-- The words that stand for all nodes, all edges or the graph itself. -/
def keywords : List (List Char) := ["node".toList, "edge".toList, "graph".toList]

def Item.ofTokens? : List Token → Option Item
  | [.word name, .symbol '=', token] => do
      let value ← token.value?
      return .setting (String.ofList name) value
  | .word name :: .symbol '[' :: rest => do
      let attributes ← attributes? rest
      return if name ∈ keywords then .defaults (String.ofList name) attributes
        else .node (String.ofList name) attributes
  | .word source :: .arrow :: .word target :: .symbol '[' :: rest => do
      let attributes ← attributes? rest
      return .edge (String.ofList source) (String.ofList target) attributes
  | _ => none

/-- The statements of a text, each ended by a semicolon. -/
def items? (tokens : List Token) : Option (List Item) :=
  let parts := tokens.splitOn (.symbol ';')
  if parts.getLast? = some [] then parts.dropLast.mapM Item.ofTokens? else none

/-- The statements of a directed graph. -/
def read (text : String) : Option (List Item) := do
  match ← lex text with
  | .word kind :: .word _ :: .symbol '\x7b' :: rest =>
      if kind = "digraph".toList ∧ rest.getLast? = some (.symbol '\x7d') then items? rest.dropLast
      else none
  | _ => none

/-- The attributes of a node besides its label. -/
def Node.attributes : Node → List (String × String)
  | .operation _ => []
  | .missing _ => [("shape", "ellipse"), ("style", "dashed")]
  | .sink _ => [("shape", "ellipse")]

/-- The attributes of an edge besides its label. -/
def Line.attributes : Line → List (String × String)
  | .solid => []
  | .dotted => [("style", "dotted")]
  | .bold => [("style", "bold")]

/-- What the text of a statement says. -/
def Statement.item : Statement → Item
  | .node id label => .node id.text (("label", label) :: id.attributes)
  | .edge source target label line =>
      .edge source.text target.text (("label", label) :: line.attributes)

/-- What is said of the graph as a whole. -/
def globalItems : List Item := [.setting "rankdir" "LR", .defaults "node" [("shape", "box")]]

/-- A further attribute. -/
def attributeTokens (a : String × String) : List Token :=
  [.symbol ',', .word a.1.toList, .symbol '=', .word a.2.toList]

/-- The parts of a label and of other attributes, with the brackets. -/
def bracketTokens (label : String) (attributes : List (String × String)) : List Token :=
  [.symbol '[', .word "label".toList, .symbol '=', .quoted (escapeChars label.toList)] ++
    attributes.flatMap attributeTokens ++ [.symbol ']']

/-- The parts of a statement up to its semicolon. -/
def Statement.tokens : Statement → List Token
  | .node id label => .word id.text.toList :: bracketTokens label id.attributes
  | .edge source target label line =>
      [.word source.text.toList, .arrow, .word target.text.toList] ++
        bracketTokens label line.attributes

def globalTokens : List (List Token) :=
  [[.word "rankdir".toList, .symbol '=', .word "LR".toList],
    [.word "node".toList, .symbol '[', .word "shape".toList, .symbol '=', .word "box".toList,
      .symbol ']']]

theorem lexes_nodeStyle (id : Node) : Lexes (id.style ++ "];\n").toList
    (id.attributes.flatMap attributeTokens ++ [.symbol ']'] ++ [.symbol ';']) := by
  cases id with
  | operation index =>
      change Lexes ("" ++ "];\n").toList _
      exact fun _ => rfl
  | missing buffer =>
      change Lexes (", shape=ellipse, style=dashed" ++ "];\n").toList _
      exact fun _ => rfl
  | sink buffer =>
      change Lexes (", shape=ellipse" ++ "];\n").toList _
      exact fun _ => rfl

theorem lexes_lineStyle (line : Line) : Lexes (line.style ++ "];\n").toList
    (line.attributes.flatMap attributeTokens ++ [.symbol ']'] ++ [.symbol ';']) := by
  cases line with
  | solid => exact fun _ => rfl
  | dotted => exact fun _ => rfl
  | bold => exact fun _ => rfl

theorem lexes_brackets (label : String) {style : String} {attributes : List (String × String)}
    (hstyle : Lexes (style ++ "];\n").toList
      (attributes.flatMap attributeTokens ++ [.symbol ']'] ++ [.symbol ';'])) :
    Lexes (" [" ++ labelText label ++ style ++ "];\n").toList
      (bracketTokens label attributes ++ [.symbol ';']) := by
  have hopen : Lexes " [label=".toList [.symbol '[', .word "label".toList, .symbol '='] :=
    fun _ => rfl
  have htext : (" [" ++ labelText label ++ style ++ "];\n").toList = " [label=".toList ++
      (('"' :: (escapeChars label.toList ++ ['"'])) ++ (style ++ "];\n").toList) := by
    simp [labelText, escape]
  rw [htext]
  exact hopen.append ((Lexes.quoted label.toList).append hstyle)

namespace Node

def kind : Node → String
  | .operation _ => "op"
  | .missing _ => "missing"
  | .sink _ => "sink"

def number : Node → Nat
  | .operation index => index
  | .missing buffer => buffer
  | .sink buffer => buffer

theorem text_eq (id : Node) : id.text = id.kind ++ id.number.repr := by
  cases id <;> rfl

theorem text_toList (id : Node) :
    id.text.toList = id.kind.toList ++ Nat.toDigits 10 id.number := by
  rw [text_eq, String.toList_append, Nat.toList_repr]

theorem text_ne_nil (id : Node) : id.text.toList ≠ [] := by
  rw [text_toList]
  exact List.append_ne_nil_of_right_ne_nil _ Nat.toDigits_ne_nil

theorem isWordChar_of_mem_text (id : Node) : ∀ c ∈ id.text.toList, isWordChar c = true := by
  have hkind : id.kind.toList.all isWordChar = true := by
    cases id <;> dsimp only [kind] <;> rfl
  rw [text_toList]
  intro c hc
  rcases List.mem_append.mp hc with hname | hdigit
  · exact List.all_eq_true.mp hkind c hname
  · have hc := Nat.isDigit_of_mem_toDigits (by decide) (by decide) hdigit
    simp [isWordChar, Char.isAlphanum, hc]

theorem text_not_mem_keywords (id : Node) : id.text.toList ∉ keywords := by
  rw [text_toList]
  cases id <;> simp [keywords, kind]

/-- Nodes are told apart by their texts. -/
theorem text_injective : Function.Injective text := by
  have hdigits : Function.Injective (Nat.toDigits 10) :=
    Function.LeftInverse.injective fun _ => Nat.ofDigitChars_ten_toDigits
  intro id id' h
  have htext := congrArg String.toList h
  rw [text_toList, text_toList] at htext
  cases id <;> cases id' <;> simp [kind, number, hdigits.eq_iff] at htext ⊢
  all_goals exact htext

end Node

namespace Statement

/-- A statement is scanned as its parts, whatever its names are. -/
theorem lexes (s : Statement) : Lexes s.text.toList (s.tokens ++ [.symbol ';']) := by
  have hindent : Lexes "    ".toList [] := fun _ => rfl
  have harrow : Lexes " -> ".toList [.arrow] := fun _ => rfl
  have hspace : isWordChar ' ' = false := rfl
  cases s with
  | node id label =>
      have htext : (Statement.node id label).text.toList = "    ".toList ++
          (id.text.toList ++ (" [" ++ labelText label ++ id.style ++ "];\n").toList) := by
        simp [text]
      have hid := (lexes_brackets label (lexes_nodeStyle id)).word_append id.text_ne_nil
        id.isWordChar_of_mem_text (by simp [hspace])
      rw [htext]
      exact hindent.append hid
  | edge source target label line =>
      have htext : (Statement.edge source target label line).text.toList = "    ".toList ++
          (source.text.toList ++ (" -> ".toList ++ (target.text.toList ++
            (" [" ++ labelText label ++ line.style ++ "];\n").toList))) := by
        simp [text]
      have htarget := (lexes_brackets label (lexes_lineStyle line)).word_append target.text_ne_nil
        target.isWordChar_of_mem_text (by simp [hspace])
      have hsource := (harrow.append htarget).word_append source.text_ne_nil
        source.isWordChar_of_mem_text (by simp [hspace])
      rw [htext]
      exact hindent.append hsource

theorem symbol_not_mem_tokens (s : Statement) : .symbol ';' ∉ s.tokens := by
  have hbrackets (label : String) (attributes : List (String × String)) :
      .symbol ';' ∉ bracketTokens label attributes := by
    simp [bracketTokens, attributeTokens]
  cases s <;> simp [tokens, hbrackets]

end Statement

/-- Attributes are read up to the bracket behind them. -/
theorem attributes?_flatMap {name : List Char} {token : Token} {value : String}
    (hvalue : token.value? = some value) (as : List (String × String)) :
    attributes? (.word name :: .symbol '=' :: token ::
      (as.flatMap attributeTokens ++ [.symbol ']'])) =
        some ((String.ofList name, value) :: as) := by
  induction as generalizing name token value with
  | nil => simp [attributes?, hvalue]
  | cons a as ih =>
      have ha : (Token.word a.2.toList).value? = some a.2 := congrArg some String.ofList_toList
      have htokens : (a :: as).flatMap attributeTokens ++ [.symbol ']'] = .symbol ',' ::
          .word a.1.toList :: .symbol '=' :: .word a.2.toList ::
            (as.flatMap attributeTokens ++ [.symbol ']']) := rfl
      rw [htokens]
      unfold attributes?
      simp [hvalue, ih ha]

theorem attributes?_brackets (label : String) (as : List (String × String)) :
    ∃ rest, bracketTokens label as = .symbol '[' :: rest ∧
      attributes? rest = some (("label", label) :: as) := by
  have hvalue : (Token.quoted (escapeChars label.toList)).value? = some label := by
    simp [Token.value?, unescape_escapeChars]
  exact ⟨_, rfl, attributes?_flatMap hvalue as⟩

theorem ofTokens?_tokens (s : Statement) : Item.ofTokens? s.tokens = some s.item := by
  cases s with
  | node id label =>
      obtain ⟨rest, hrest, hattributes⟩ := attributes?_brackets label id.attributes
      simp [Statement.tokens, Statement.item, hrest, Item.ofTokens?, hattributes,
        id.text_not_mem_keywords]
  | edge source target label line =>
      obtain ⟨rest, hrest, hattributes⟩ := attributes?_brackets label line.attributes
      simp [Statement.tokens, Statement.item, hrest, Item.ofTokens?, hattributes]

theorem splitOn_flatMap {sep : Token} {parts : List (List Token)}
    (h : ∀ part ∈ parts, sep ∉ part) :
    (parts.flatMap (· ++ [sep])).splitOn sep = parts ++ [[]] := by
  induction parts with
  | nil => exact List.splitOn_nil sep
  | cons part parts ih =>
      obtain ⟨hpart, hparts⟩ := List.forall_mem_cons.mp h
      rw [List.flatMap_cons, List.append_assoc, List.singleton_append,
        List.splitOn_append_cons_self_of_not_mem hpart, ih hparts]
      rfl

/-- The parts of statements, each with its semicolon, are read one by one. -/
theorem items?_flatMap (ss : List Statement) :
    items? ((globalTokens ++ ss.map Statement.tokens).flatMap (· ++ [.symbol ';'])) =
      some (globalItems ++ ss.map Statement.item) := by
  have hparts : ∀ part ∈ globalTokens ++ ss.map Statement.tokens, .symbol ';' ∉ part := by
    rw [List.forall_mem_append, List.forall_mem_map]
    exact ⟨by decide, fun s _ => s.symbol_not_mem_tokens⟩
  have hglobal : globalTokens.mapM Item.ofTokens? = some globalItems := by decide
  have hss : (ss.map Statement.tokens).mapM Item.ofTokens? = some (ss.map Statement.item) := by
    rw [List.mapM_map, funext (f := Item.ofTokens? ∘ Statement.tokens) ofTokens?_tokens]
    exact List.mapM_pure
  unfold items?
  rw [splitOn_flatMap hparts]
  simp [hglobal, hss]

theorem lexes_statements (ss : List Statement) :
    Lexes (String.join (ss.map Statement.text)).toList
      ((ss.map Statement.tokens).flatMap (· ++ [.symbol ';'])) := by
  induction ss with
  | nil =>
      intro before
      simp
  | cons s ss ih =>
      rw [List.map_cons, String.join_cons, String.toList_append, List.map_cons, List.flatMap_cons]
      exact s.lexes.append ih

theorem lexes_write (ss : List Statement) : Lexes (write ss).toList
    (.word "digraph".toList :: .word "render_graph".toList :: .symbol '\x7b' ::
      ((globalTokens ++ ss.map Statement.tokens).flatMap (· ++ [.symbol ';']) ++
        [.symbol '\x7d'])) := by
  have hopening : Lexes opening.toList
      (.word "digraph".toList :: .word "render_graph".toList :: .symbol '\x7b' ::
        globalTokens.flatMap (· ++ [.symbol ';'])) := fun _ => rfl
  have hclosing : Lexes closing.toList [.symbol '\x7d'] := fun _ => rfl
  unfold write
  rw [String.toList_append, String.toList_append, List.flatMap_append]
  exact (hopening.append (lexes_statements ss)).append hclosing

theorem read_of_lex {text : String} {name : List Char} {body : List Token}
    (h : lex text = some (.word "digraph".toList :: .word name :: .symbol '\x7b' ::
      (body ++ [.symbol '\x7d']))) : read text = items? body := by
  have hlast : (body ++ [Token.symbol '\x7d']).getLast? = some (.symbol '\x7d') :=
    List.getLast?_concat
  unfold read
  rw [h]
  change (if _ ∧ _ then _ else none) = _
  rw [if_pos ⟨rfl, hlast⟩, List.dropLast_concat]

/-- A drawing is read as it was written: its names become labels again, and nothing
else. -/
theorem read_write (ss : List Statement) :
    read (write ss) = some (globalItems ++ ss.map Statement.item) :=
  (read_of_lex (lexes_write ss).lex_eq).trans (items?_flatMap ss)

/-- A name that looks like the end of its label and another statement. -/
example : read (write [.node (.operation 0) "a\"]; op9 [label=\"b\\"]) =
    some (globalItems ++ [.node "op0" [("label", "a\"]; op9 [label=\"b\\")]]) := by
  decide +kernel

end FrameGraph.Dot

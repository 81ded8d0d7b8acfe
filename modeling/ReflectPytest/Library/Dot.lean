import Mathlib.Data.List.Lemmas
import ReflectPytest.Library.Transducers

set_option autoImplicit false

/-! # The DOT language

A reader of graphs in DOT: a lexer, a parser of statements and the check that what is opened is
closed, what the statements give to a node or an edge, and what the labels of a graph show. It reads
digraphs without ports, chains of edges, concatenated strings and block comments, and HTML labels
with the tags of text; wherever a `;` or a `,` may be left out between attributes it may be left out
here too. -/

namespace Dot

/-! ## Tokens -/

inductive Token where
  | id (name : List Char)
  | quoted (text : List Char)
  | html (text : List Char)
  | arrow
  | sym (c : Char)
  deriving DecidableEq

/-- What the lexer is in the middle of. -/
inductive Lexing where
  | idle
  | name (acc : List Char)
  | numeral (acc : List Char) (dot : Bool)
  | quote (acc : List Char)
  | escape (acc : List Char)
  | angle (depth : Nat) (acc : List Char)
  | dash
  | slash
  | comment
  | failed
  deriving DecidableEq

/-- The characters a name starts with; those beyond ASCII are among them. -/
def startsName (c : Char) : Bool := c.isAlpha || c == '_' || 128 ≤ c.toNat

/-- The characters of a name. -/
def inName (c : Char) : Bool := startsName c || c.isDigit

/-- A character between tokens. -/
def lexIdle (c : Char) : Lexing × List Token :=
  if startsName c then (.name [c], [])
  else if c.isDigit then (.numeral [c] false, [])
  else match c with
    | ' ' | '\t' | '\n' | '\r' => (.idle, [])
    | '.' => (.numeral [c] true, [])
    | '"' => (.quote [], [])
    | '<' => (.angle 0 [], [])
    | '-' => (.dash, [])
    | '/' => (.slash, [])
    | '[' | ']' | '=' | ',' | ';' => (.idle, [.sym c])
    | '\x7b' | '\x7d' => (.idle, [.sym c])
    | _ => (.failed, [])

/-- A token ends where the next character cannot belong to it. -/
def lexAfter (t : Token) (c : Char) : Lexing × List Token := ((lexIdle c).1, t :: (lexIdle c).2)

def lexer : Transducer Lexing Char Token where
  step
    | .idle, c => lexIdle c
    | .name acc, c => if inName c then (.name (acc ++ [c]), []) else lexAfter (.id acc) c
    | .numeral acc dot, c =>
        if c.isDigit then (.numeral (acc ++ [c]) dot, [])
        else if c = '.' ∧ dot = false then (.numeral (acc ++ [c]) true, [])
        else if startsName c ∨ c = '.' then (.failed, [])
        else lexAfter (.id acc) c
    | .quote acc, c =>
        if c = '"' then (.idle, [.quoted acc])
        else if c = '\\' then (.escape acc, [])
        else (.quote (acc ++ [c]), [])
    -- only the quote itself is unescaped here, the rest is left to whoever shows the text
    | .escape acc, c =>
        if c = '"' then (.quote (acc ++ [c]), [])
        else if c = '\n' then (.quote acc, [])
        else (.quote (acc ++ ['\\', c]), [])
    | .angle depth acc, c =>
        if c = '<' then (.angle (depth + 1) (acc ++ [c]), [])
        else if c = '>' then
          if depth = 0 then (.idle, [.html acc]) else (.angle (depth - 1) (acc ++ [c]), [])
        else (.angle depth (acc ++ [c]), [])
    | .dash, c => if c = '>' then (.idle, [.arrow]) else (.failed, [])
    | .slash, c => if c = '/' then (.comment, []) else (.failed, [])
    | .comment, c => if c = '\n' then (.idle, []) else (.comment, [])
    | .failed, _ => (.failed, [])

/-! ## Statements -/

/-- The value of an attribute: a name, a numeral or a quoted text, or HTML. -/
inductive Value where
  | plain (text : List Char)
  | html (text : List Char)
  deriving DecidableEq

abbrev Attrs : Type := List (List Char × Value)

/-- What attributes are given to. -/
inductive Target where
  | defaults (kind : List Char)
  | node (name : List Char)
  | edge (src dst : List Char)
  deriving DecidableEq

inductive Stmt where
  | opens (name : Option (List Char))
  | closes
  | assign (key : List Char) (value : Value)
  | attach (target : Target) (attrs : Attrs)
  deriving DecidableEq

/-- What the parser is in the middle of. -/
inductive Parsing where
  | start
  | head
  | headed (name : List Char)
  | body
  | subgraph
  | subgraphNamed (name : List Char)
  | subject (name : List Char)
  | assigning (key : List Char)
  | edgeFrom (src : List Char)
  | edge (src dst : List Char)
  | defaults (kind : List Char)
  | attrs (target : Target) (acc : Attrs)
  | attrKey (target : Target) (acc : Attrs) (key : List Char)
  | attrValue (target : Target) (acc : Attrs) (key : List Char)
  | failed
  deriving DecidableEq

/-- Keywords, which do not name a node, in any case. -/
def keywords : List (List Char) :=
  ["strict", "graph", "digraph", "subgraph", "node", "edge"].map String.toList

def isKeyword (name : List Char) : Bool := name.map Char.toLower ∈ keywords

/-- The start of a statement. -/
def parseBody : Token → Parsing × List Stmt
  | .id name =>
      if isKeyword name then
        if name.map Char.toLower = "subgraph".toList then (.subgraph, [])
        else if name.map Char.toLower ∈ ["graph", "node", "edge"].map String.toList then
          (.defaults (name.map Char.toLower), [])
        else (.failed, [])
      else (.subject name, [])
  | .quoted text => (.subject text, [])
  | .sym ';' => (.body, [])
  | .sym '\x7b' => (.body, [.opens none])
  | .sym '\x7d' => (.body, [.closes])
  | _ => (.failed, [])

def parser : Transducer Parsing Token Stmt where
  step
    | .start, .id name =>
        if name.map Char.toLower = "digraph".toList then (.head, []) else (.failed, [])
    | .head, .id name => if isKeyword name then (.failed, []) else (.headed name, [])
    | .head, .sym '\x7b' => (.body, [.opens none])
    | .headed name, .sym '\x7b' => (.body, [.opens (some name)])
    | .body, t => parseBody t
    | .subgraph, .id name => if isKeyword name then (.failed, []) else (.subgraphNamed name, [])
    | .subgraph, .sym '\x7b' => (.body, [.opens none])
    | .subgraphNamed name, .sym '\x7b' => (.body, [.opens (some name)])
    | .subject name, .sym '=' => (.assigning name, [])
    | .subject name, .sym '[' => (.attrs (.node name) [], [])
    | .subject name, .sym ';' => (.body, [.attach (.node name) []])
    | .subject name, .arrow => (.edgeFrom name, [])
    | .assigning key, .id v => (.body, [.assign key (.plain v)])
    | .assigning key, .quoted v => (.body, [.assign key (.plain v)])
    | .assigning key, .html v => (.body, [.assign key (.html v)])
    | .edgeFrom src, .id dst => if isKeyword dst then (.failed, []) else (.edge src dst, [])
    | .edgeFrom src, .quoted dst => (.edge src dst, [])
    | .edge src dst, .sym '[' => (.attrs (.edge src dst) [], [])
    | .edge src dst, .sym ';' => (.body, [.attach (.edge src dst) []])
    | .defaults kind, .sym '[' => (.attrs (.defaults kind) [], [])
    | .attrs target acc, .id key => (.attrKey target acc key, [])
    | .attrs target acc, .sym ',' => (.attrs target acc, [])
    | .attrs target acc, .sym ';' => (.attrs target acc, [])
    | .attrs target acc, .sym ']' => (.body, [.attach target acc])
    | .attrKey target acc key, .sym '=' => (.attrValue target acc key, [])
    | .attrValue target acc key, .id v => (.attrs target (acc ++ [(key, .plain v)]), [])
    | .attrValue target acc key, .quoted v => (.attrs target (acc ++ [(key, .plain v)]), [])
    | .attrValue target acc key, .html v => (.attrs target (acc ++ [(key, .html v)]), [])
    | _, _ => (.failed, [])

/-- The number of open braces after the statements, while there is one. -/
def depthAfter (depth : Nat) (stmts : List Stmt) : Option Nat :=
  stmts.foldlM (fun depth stmt => match stmt with
    | .opens _ => some (depth + 1)
    | .closes => if depth ≤ 1 then none else some (depth - 1)
    | _ => some depth) depth

/-- The reader of statements, character by character. -/
def reader : Transducer (Lexing × Parsing) Char Stmt := lexer.comp parser

/-- The statements of a digraph, without the braces around them. -/
def read (text : List Char) : Option (List Stmt) :=
  match reader.run (.idle, .start) text with
  | ((.idle, .body), .opens _ :: stmts) =>
      if stmts.getLast? = some .closes ∧ depthAfter 1 stmts.dropLast = some 1 then
        some stmts.dropLast
      else none
  | _ => none

/-! ## What a graph is given -/

/-- An attribute that is given more than once has its last value. -/
def valueOf (key : List Char) (attrs : Attrs) : Option Value := attrs.reverse.lookup key

/-- The statements about nodes. -/
def nodeStmts (stmts : List Stmt) : List (List Char × Attrs) :=
  stmts.filterMap fun
    | .attach (.node name) attrs => some (name, attrs)
    | _ => none

/-- The attributes of a node: all statements about it are about one node. -/
def nodeAttrs (stmts : List Stmt) (name : List Char) : Attrs :=
  (nodeStmts stmts).flatMap fun stmt => if stmt.1 = name then stmt.2 else []

/-- The edges; each statement draws another one. -/
def edges (stmts : List Stmt) : List ((List Char × List Char) × Attrs) :=
  stmts.filterMap fun
    | .attach (.edge src dst) attrs => some ((src, dst), attrs)
    | _ => none

theorem nodeAttrs_append (stmts stmts' : List Stmt) (name : List Char) :
    nodeAttrs (stmts ++ stmts') name = nodeAttrs stmts name ++ nodeAttrs stmts' name := by
  simp [nodeAttrs, nodeStmts]

theorem edges_append (stmts stmts' : List Stmt) :
    edges (stmts ++ stmts') = edges stmts ++ edges stmts' :=
  List.filterMap_append

/-- A node no statement is about. -/
theorem nodeAttrs_eq_nil {stmts : List Stmt} {name : List Char}
    (h : ∀ attrs, .attach (.node name) attrs ∉ stmts) : nodeAttrs stmts name = [] := by
  refine List.flatMap_eq_nil_iff.2 fun ⟨other, attrs⟩ hmem => if_neg ?_
  rintro rfl
  obtain ⟨stmt, hstmt, hsome⟩ := List.mem_filterMap.1 hmem
  split at hsome
  · obtain ⟨rfl, rfl⟩ := Prod.mk.inj (Option.some.inj hsome)
    exact h _ hstmt
  · cases hsome

/-- Statements about distinct nodes: each node has the attributes of its own one. -/
theorem nodeAttrs_map {ι : Type} {is : List ι} {name : ι → List Char} (attrs : ι → Attrs)
    (hnames : (is.map name).Nodup) {i : ι} (hi : i ∈ is) :
    nodeAttrs (is.map fun i => .attach (.node (name i)) (attrs i)) (name i) = attrs i := by
  induction is with
  | nil => exact absurd hi List.not_mem_nil
  | cons j is ih =>
      obtain ⟨hj, hnames⟩ := List.nodup_cons.1 hnames
      have hcons : nodeAttrs ((j :: is).map fun i => .attach (.node (name i)) (attrs i)) (name i) =
          (if name j = name i then attrs j else []) ++
            nodeAttrs (is.map fun i => .attach (.node (name i)) (attrs i)) (name i) := rfl
      rw [hcons]
      rcases List.mem_cons.1 hi with rfl | hi
      · have hrest : nodeAttrs (is.map fun i => .attach (.node (name i)) (attrs i)) (name i) = [] :=
          nodeAttrs_eq_nil fun attrs' hmem => by
            obtain ⟨i', hi', heq⟩ := List.mem_map.1 hmem
            obtain ⟨htarget, -⟩ := Stmt.attach.inj heq
            exact hj (List.mem_map.2 ⟨i', hi', Target.node.inj htarget⟩)
        rw [if_pos rfl, hrest, List.append_nil]
      · have hne : name j ≠ name i := fun heq => hj (heq ▸ List.mem_map_of_mem hi)
        rw [if_neg hne, List.nil_append, ih hnames hi]

/-! ## Labels -/

/-- A plain label: `\n`, `\l` and `\r` end a line, another character after `\` stands for itself. -/
def plainLabel : Transducer Bool Char Char where
  step
    | false, c => if c = '\\' then (true, []) else (false, [c])
    | true, c => (false, [if c = 'n' ∨ c = 'l' ∨ c = 'r' then '\n' else c])

/-- A character of XML that is shown: no control character. -/
def isVisible (c : Char) : Bool := ' ' ≤ c && c != '\uFFFE' && c != '\uFFFF'

/-- The characters of XML. -/
def isXml (c : Char) : Bool := c == '\t' || c == '\n' || c == '\r' || isVisible c

/-- What the reader of an HTML label is in the middle of, and the elements that are open. -/
inductive Markup where
  | text (opened : List (List Char))
  | tag (opened : List (List Char)) (acc : List Char)
  | entity (opened : List (List Char)) (acc : List Char)
  | failed
  deriving DecidableEq

/-- The character an entity stands for. -/
def entity (name : List Char) : Option Char :=
  if name = "amp".toList then some '&'
  else if name = "lt".toList then some '<'
  else if name = "gt".toList then some '>'
  else if name = "quot".toList then some '"'
  else if name = "apos".toList then some '\''
  else none

/-- An attribute in a tag: a key and a value between quotes. -/
def isTagAttribute (text : List Char) : Bool :=
  match text.dropWhile fun c => c.isAlpha || c == '-' with
  | '=' :: '"' :: rest => rest.getLast? == some '"' && rest.dropLast.all (· != '"')
  | _ => false

/-- The name in a start tag, with at most one attribute behind it. -/
def startTag (tag : List Char) : Option (List Char) :=
  let name := tag.takeWhile (· != ' ')
  match tag.drop name.length with
  | [] => some name
  | _ :: rest => if isTagAttribute rest then some name else none

/-- The elements of a label with text in them. -/
def elements : List (List Char) := ["B", "FONT", "I", "U"].map String.toList

/-- What is open after a tag, and what the tag shows. -/
def readTag (opened : List (List Char)) (tag : List Char) : Markup × List Char :=
  if tag = "BR/".toList then (.text opened, ['\n'])
  else match tag with
    | '/' :: name => if opened.head? = some name then (.text opened.tail, []) else (.failed, [])
    | _ =>
        match startTag tag with
        | some name => if name ∈ elements then (.text (name :: opened), []) else (.failed, [])
        | none => (.failed, [])

/-- An HTML label: `<BR/>` ends a line, the other tags come in pairs and show nothing. -/
def htmlLabel : Transducer Markup Char Char where
  step
    | .text opened, c =>
        if c = '<' then (.tag opened [], [])
        else if c = '&' then (.entity opened [], [])
        else if c = '>' ∨ isXml c = false then (.failed, [])
        else (.text opened, if isVisible c then [c] else [])
    | .tag opened acc, c =>
        if c = '<' ∨ isVisible c = false then (.failed, [])
        else if c = '>' then readTag opened acc
        else (.tag opened (acc ++ [c]), [])
    | .entity opened acc, c =>
        if c = ';' then
          match entity acc with
          | some e => (.text opened, [e])
          | none => (.failed, [])
        else (.entity opened (acc ++ [c]), [])
    | .failed, _ => (.failed, [])

/-- What a label shows. -/
def Value.shows (v : Value) (text : List Char) : Prop :=
  match v with
  | .plain raw => plainLabel.Reads false raw false text
  | .html raw => htmlLabel.Reads (.text []) raw (.text []) text

/-- A value that can be shown. -/
def Value.readable (v : Value) : Bool :=
  match v with
  | .plain raw => (plainLabel.run false raw).1 = false
  | .html raw => (htmlLabel.run (.text []) raw).1 = .text []

/-- All values in the statement can be shown. -/
def Stmt.readable : Stmt → Bool
  | .assign _ value => value.readable
  | .attach _ attrs => attrs.all fun a => a.2.readable
  | _ => true

instance (v : Value) (text : List Char) : Decidable (v.shows text) :=
  match v with
  | .plain raw => inferInstanceAs (Decidable (plainLabel.Reads false raw false text))
  | .html raw => inferInstanceAs (Decidable (htmlLabel.Reads (.text []) raw (.text []) text))

theorem Value.shows.readable {v : Value} {text : List Char} (h : v.shows text) :
    v.readable = true := by
  cases v with
  | plain raw => exact decide_eq_true (congrArg Prod.fst h)
  | html raw => exact decide_eq_true (congrArg Prod.fst h)

/-! ## Reading in pieces -/

/-- A name that is not a keyword. -/
structure IsName (name : List Char) : Prop where
  starts : name.head?.any startsName = true
  chars : ∀ c ∈ name, inName c = true
  free : isKeyword name = false

/-- The characters of a name, after the first. -/
theorem reads_inName {cs : List Char} (h : ∀ c ∈ cs, inName c = true) (acc : List Char) :
    lexer.Reads (.name acc) cs (.name (acc ++ cs)) [] := by
  induction cs generalizing acc with
  | nil => exact (List.append_nil acc).symm ▸ .nil
  | cons c cs ih =>
      have hstep : lexer.step (.name acc) c = (.name (acc ++ [c]), []) :=
        if_pos (h c List.mem_cons_self)
      have hrest := ih (fun c' hc' => h c' (.tail _ hc')) (acc ++ [c])
      rw [List.append_assoc] at hrest
      exact .cons hstep hrest

/-- A name, and what follows it. -/
theorem IsName.reads {name : List Char} (h : IsName name) {text : List Char}
    (htext : text.head?.any inName = false) (hmore : text ≠ []) {s : Lexing} {ts : List Token}
    (hrest : lexer.Reads .idle text s ts) :
    lexer.Reads .idle (name ++ text) s (.id name :: ts) := by
  have hname : lexer.Reads .idle name (.name name) [] := by
    cases name with
    | nil => exact absurd h.starts (by decide)
    | cons d ds =>
        have hstep : lexer.step .idle d = (.name [d], []) := if_pos h.starts
        exact .cons hstep (reads_inName (fun c' hc' => h.chars c' (.tail _ hc')) [d])
  refine hname.silent ?_
  cases text with
  | nil => exact absurd rfl hmore
  | cons c cs =>
      have hend : lexer.step (.name name) c = lexAfter (.id name) c :=
        if_neg (ne_true_of_eq_false htext)
      unfold Transducer.Reads at hrest ⊢
      rw [Transducer.run, hend]
      exact congrArg (fun r => (r.1, Token.id name :: r.2)) hrest

theorem IsName.subject {name : List Char} (h : IsName name) :
    parser.step .body (.id name) = (.subject name, []) :=
  if_neg (ne_true_of_eq_false h.free)

theorem IsName.edge {name : List Char} (h : IsName name) (src : List Char) :
    parser.step (.edgeFrom src) (.id name) = (.edge src name, []) :=
  if_neg (ne_true_of_eq_false h.free)

/-- The end of a string, and what follows it. -/
theorem reads_endQuote {acc cs : List Char} {s : Lexing} {ts : List Token}
    (hrest : lexer.Reads .idle cs s ts) :
    lexer.Reads (.quote acc) ('"' :: cs) s (.quoted acc :: ts) :=
  .cons rfl hrest

/-- The nesting of angle brackets after a text, as long as it is inside the outermost. -/
def nest (depth : Nat) (text : List Char) : Option Nat :=
  text.foldlM (fun depth c =>
    if c = '<' then some (depth + 1)
    else if c = '>' then if depth = 0 then none else some (depth - 1)
    else some depth) depth

theorem nest_append {text text' : List Char} {depth depth' : Nat}
    (h : nest depth text = some depth') : nest depth (text ++ text') = nest depth' text' := by
  unfold nest at h ⊢
  rw [List.foldlM_append, h]
  rfl

/-- Text inside an HTML string. -/
theorem reads_nested {text acc : List Char} {depth depth' : Nat}
    (h : nest depth text = some depth') :
    lexer.Reads (.angle depth acc) text (.angle depth' (acc ++ text)) [] := by
  induction text generalizing depth acc with
  | nil =>
      obtain rfl := Option.some.inj h
      exact (List.append_nil acc).symm ▸ .nil
  | cons c text ih =>
      rw [show acc ++ c :: text = acc ++ [c] ++ text by simp]
      rw [nest, List.foldlM_cons] at h
      obtain ⟨next, hnext, hrest⟩ := Option.bind_eq_some_iff.1 h
      have hstep : lexer.step (.angle depth acc) c = (.angle next (acc ++ [c]), []) := by
        split_ifs at hnext with hopen hclose houter
        · simp [lexer, hopen, Option.some.inj hnext]
        · simp [lexer, hclose, houter, Option.some.inj hnext]
        · simp [lexer, hopen, hclose, Option.some.inj hnext]
      exact .cons hstep (ih hrest)

/-- The end of an HTML string, and what follows it. -/
theorem reads_endHtml {acc text : List Char} {s : Lexing} {ts : List Token}
    (hrest : lexer.Reads .idle text s ts) :
    lexer.Reads (.angle 0 acc) ('>' :: text) s (.html acc :: ts) :=
  .cons rfl hrest

theorem depthAfter_append {stmts stmts' : List Stmt} {depth depth' : Nat}
    (h : depthAfter depth stmts = some depth') :
    depthAfter depth (stmts ++ stmts') = depthAfter depth' stmts' := by
  unfold depthAfter at h ⊢
  rw [List.foldlM_append, h]
  rfl

theorem depthAfter_attach {stmts : List Stmt}
    (h : ∀ stmt ∈ stmts, ∃ target attrs, stmt = .attach target attrs) (depth : Nat) :
    depthAfter depth stmts = some depth := by
  induction stmts with
  | nil => rfl
  | cons stmt stmts ih =>
      obtain ⟨target, attrs, rfl⟩ := h stmt List.mem_cons_self
      exact ih fun stmt hstmt => h stmt (.tail _ hstmt)

/-- **A whole digraph**: its statements, between the braces. -/
theorem read_eq {text : List Char} {stmts : List Stmt} {name : Option (List Char)}
    (htext : reader.Reads (.idle, .start) text (.idle, .body)
      (.opens name :: (stmts ++ [.closes]))) (hdepth : depthAfter 1 stmts = some 1) :
    read text = some stmts := by
  have hall : reader.run (.idle, .start) text =
      ((.idle, .body), .opens name :: (stmts ++ [.closes])) := htext
  simp [read, hall, hdepth]

end Dot

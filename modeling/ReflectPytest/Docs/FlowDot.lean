import Mathlib.Data.Finset.Prod
import Mathlib.Data.Finset.Sort
import Mathlib.Data.Prod.Lex
import Mathlib.Data.String.Basic
import ReflectPytest.Docs.Topology
import ReflectPytest.Docs.WrapWords
import ReflectPytest.Library.Dot

set_option autoImplicit false

/-! # The flow diagram as a file

`emit_graphviz_flow_dot` writes the diagram in DOT: the boxes of the components with their names and
the first sentence of their descriptions, and the edges with the names of the messages. Read back,
the file shows exactly that, as long as the nodes have names of their own and the texts are such
that XML can hold them (`emitGraphvizFlowDot_shows`). -/

namespace ReflectPytest

open LineFilling

/-! ## Escaping -/

/-- The replacement of a character in `dot_escape_label`. -/
def dotEscapeChar (ch : Char) : List Char :=
  if ch = '\\' then ['\\', '\\']
  else if ch = '"' then ['\\', '"']
  else if ch = '\n' then ['\\', 'n']
  else if ch = '\r' then []
  else [ch]

/-- `dot_escape_label`. -/
def dotEscapeLabel (s : List Char) : List Char := s.flatMap dotEscapeChar

/-- The replacement of a character in `html_escape`. -/
def htmlEscapeChar (c : Char) : List Char :=
  if c = '&' then "&amp;".toList
  else if c = '<' then "&lt;".toList
  else if c = '>' then "&gt;".toList
  else if c = '"' then "&quot;".toList
  else if c = '\'' then "&apos;".toList
  else if c = '\n' then "<BR/>".toList
  else [c]

/-- `html_escape`. -/
def htmlEscape (s : List Char) : List Char := s.flatMap htmlEscapeChar

/-- `first_sentence`. -/
def firstSentence (s : List Char) : List Char :=
  match s.idxOf? '.' with
  | none => s
  | some dot => s.take (dot + 1)

/-- The body of the loop in `build_label`: `out` and `count`. -/
def addName (s : List Char × Nat) (n : String) : List Char × Nat :=
  let out := if 0 < s.2 then if s.2 % 2 = 0 then s.1 ++ ['\n'] else s.1 ++ [',', ' '] else s.1
  (out ++ n.toList, s.2 + 1)

/-- The lambda `build_label`: two names a line. -/
def buildLabel (names : Finset String) : List Char :=
  ((names.sort (· ≤ ·)).foldl addName ([], 0)).1

/-! ## The file -/

/-- `os << ... << ...`. -/
def os (pieces : List String) : List Char := pieces.flatMap String.toList

def dotHeader : List Char := os [
  "digraph IPC \x7b\n",
  "  rankdir=LR;\n",
  "  bgcolor=\"#0F172A\";\n",
  "  pad=0.22;\n",
  "  nodesep=0.62;\n",
  "  ranksep=0.70;\n",
  "  splines=spline;\n",
  "  remincross=true;\n\n",
  "  fontname=\"Helvetica,Arial,sans-serif\";\n",
  "  fontsize=52;\n",
  "  fontcolor=\"#F1F5F9\";\n",
  "  label=<<B>System Architecture and Message Flow</B>>;\n",
  "  labelloc=\"t\";\n\n",
  "  node [\n",
  "    fontname=\"Helvetica,Arial,sans-serif\",\n",
  "    shape=rect,\n",
  "    style=\"filled,rounded\",\n",
  "    fixedsize=false,\n",
  "    margin=\"0.12,0.08\",\n",
  "    fontsize=28,\n",
  "    fontcolor=\"#FFFFFF\",\n",
  "    penwidth=4,\n",
  "    color=\"#F1F5F9\"\n",
  "  ];\n\n",
  "  edge [\n",
  "    fontname=\"Helvetica,Arial,sans-serif\",\n",
  "    fontsize=22,\n",
  "    fontcolor=\"#CBD5E1\",\n",
  "    color=\"#64748B\",\n",
  "    penwidth=3.0,\n",
  "    arrowsize=1.4,\n",
  "    labelfloat=false,\n",
  "    labeldistance=0.8,\n",
  "    labelangle=10\n",
  "  ];\n\n",
  "  // --- Simulator ---\n",
  "  subgraph cluster_sim \x7b\n",
  "    label=<<B><FONT POINT-SIZE=\"40\">Simulator</FONT></B>>;\n",
  "    fontcolor=\"#F1F5F9\";\n",
  "    style=\"rounded,filled\";\n",
  "    color=\"#475569\";\n",
  "    penwidth=4;\n",
  "    fillcolor=\"#1E293B\";\n",
  "    margin=34;\n"]

/-- The text in the box of a component. -/
def descText (c : Component) (desc : List Char) : List Char :=
  let text := wrapWords (firstSentence desc) 40
  if text.isEmpty then c.name.toList else text

/-- The node of a component, with the text of its `DOC_DESC`. -/
def dotNode (c : Component) (desc : List Char) : List Char :=
  if c.isUdpBridge then
    os ["    "] ++ (dotId "UdpBridge").toList ++
      os [" [\n", "      fillcolor=\"#0F766E\",\n", "      label=<<B><FONT POINT-SIZE=\"38\">"] ++
      htmlEscape c.name.toList ++ os ["</FONT></B><BR/><FONT POINT-SIZE=\"26\">"] ++
      htmlEscape (descText c desc) ++ os ["</FONT>>\n", "    ];\n"]
  else
    os ["    "] ++ (dotId c.name).toList ++
      os [" [\n", "      fillcolor=\"#0369A1\",\n", "      label=<<B><FONT POINT-SIZE=\"30\">"] ++
      htmlEscape c.name.toList ++ os ["</FONT></B><BR/><FONT POINT-SIZE=\"24\">"] ++
      htmlEscape (descText c desc) ++ os ["</FONT>>\n", "    ];\n"]

def dotSockets : List Char := os [
  "  \x7d\n\n",
  "  // --- Network Layer bounding box (TX/RX) ---\n",
  "  subgraph cluster_sockets \x7b\n",
  "    label=<<B><FONT POINT-SIZE=\"40\">Network Layer</FONT></B>>;\n",
  "    fontcolor=\"#F1F5F9\";\n",
  "    style=\"rounded,filled\";\n",
  "    color=\"#F59E0B\";\n",
  "    penwidth=6;\n",
  "    fillcolor=\"#2A1B07\";\n",
  "    margin=24;\n\n",
  "    \x7b rank=same; TX; RX; \x7d\n\n",
  "    TX [\n",
  "      fillcolor=\"#B45309\",\n",
  "      label=<<B><FONT POINT-SIZE=\"30\">TX Socket</FONT></B><BR/><FONT ",
  "POINT-SIZE=\"24\">Port 9000 (SIL Inbound)</FONT>>\n",
  "    ];\n",
  "    RX [\n",
  "      fillcolor=\"#B45309\",\n",
  "      label=<<B><FONT POINT-SIZE=\"30\">RX Socket</FONT></B><BR/><FONT ",
  "POINT-SIZE=\"24\">Port 9001 (SIL Outbound)</FONT>>\n",
  "    ];\n\n",
  "    TX -> RX [style=invis, weight=50, constraint=false];\n",
  "  \x7d\n\n",
  "  // --- Test Harness bounding box ---\n",
  "  subgraph cluster_fixtures \x7b\n",
  "    label=<<B><FONT POINT-SIZE=\"40\">Test Harness</FONT></B>>;\n",
  "    fontcolor=\"#F1F5F9\";\n",
  "    style=\"rounded,filled\";\n",
  "    color=\"#22C55E\";\n",
  "    penwidth=6;\n",
  "    fillcolor=\"#0B2A20\";\n",
  "    margin=24;\n\n",
  "    TestCase [\n",
  "      fillcolor=\"#047857\",\n",
  "      label=<<B><FONT POINT-SIZE=\"34\">Test Case / Fixtures</FONT></B>>\n",
  "    ];\n",
  "  \x7d\n\n",
  "  TestCase -> TX [label=\"send_msg\", color=\"#F1F5F9\", penwidth=5];\n"]

/-- The nodes of the simulator. -/
def nodes (components : List Component) : Finset String :=
  insert (dotId "UdpBridge") (components.map fun c => dotId c.name).toFinset

/-- `for (auto const& [pair, names] : edge_map)`: the pairs with an edge, in their order. -/
def edgePairs (components : List Component) : List (String × String) :=
  let drawn := (nodes components ×ˢ nodes components).filter fun key =>
    (collectEdges components).edges key ≠ ∅
  ((drawn.map toLex.toEmbedding).sort (· ≤ ·)).map ofLex

/-- An edge with a label: the text before it, the label and the text after it. -/
def dotEdge (src dst : String) (before : String) (label : List Char) (after : String) : List Char :=
  os ["  "] ++ src.toList ++ os [" -> "] ++ dst.toList ++ os [" [label=\"", before] ++
    dotEscapeLabel label ++ os ["\"", after]

def dotFooter : List Char := os [
  "  TestCase -> RX [label=\"recv_msg\", color=\"#F1F5F9\", penwidth=5, dir=back, ",
  "arrowtail=normal];\n",
  "\x7d\n"]

/-- `emit_graphviz_flow_dot`. -/
def emitGraphvizFlowDot (components : List Component) (desc : Component → List Char) : List Char :=
  let ubId := dotId "UdpBridge"
  let d := collectEdges components
  dotHeader ++ components.flatMap (fun c => dotNode c (desc c)) ++ dotSockets ++
    dotEdge "TX" ubId "Inbound Traffic:\\n" (buildLabel d.inboundMsgNames)
      ", color=\"#F1F5F9\", penwidth=5, fontsize=25];\n\n" ++
    os ["  // Internal Simulator Logic\n"] ++
    (edgePairs components).flatMap (fun pair =>
      dotEdge pair.1 pair.2 "" (buildLabel (d.edges pair)) ", style=dashed];\n") ++
    os ["\n  // Flow: Simulator -> Network -> Test Harness\n"] ++
    dotEdge "RX" ubId "Outbound Traffic:\\n" (buildLabel d.outboundMsgNames)
      ", color=\"#F1F5F9\", penwidth=5, dir=back, fontsize=25, arrowtail=normal];\n" ++
    dotFooter

/-! ## What escaping keeps -/

/-- What is left of an escaped character between quotes: there only the quotes are unescaped. -/
def rawChar (ch : Char) : List Char := if ch = '"' then ['"'] else dotEscapeChar ch

def rawLabel (s : List Char) : List Char := s.flatMap rawChar

theorem reads_dotEscapeLabel (s acc : List Char) :
    Dot.lexer.Reads (.quote acc) (dotEscapeLabel s) (.quote (acc ++ rawLabel s)) [] := by
  induction s generalizing acc with
  | nil => exact (List.append_nil acc).symm ▸ .nil
  | cons ch s ih =>
      have hch :
          Dot.lexer.Reads (.quote acc) (dotEscapeChar ch) (.quote (acc ++ rawChar ch)) [] := by
        by_cases hquote : ch = '"'
        · subst hquote
          rfl
        · rw [rawChar, if_neg hquote]
          unfold dotEscapeChar
          split_ifs with hslash hline hreturn
          · rfl
          · rfl
          · exact (List.append_nil acc).symm ▸ .nil
          · have hstep : Dot.lexer.step (.quote acc) ch = (.quote (acc ++ [ch]), []) := by
              simp [Dot.lexer, hslash, hquote]
            exact .cons hstep .nil
      unfold dotEscapeLabel rawLabel at ih ⊢
      rw [List.flatMap_cons, List.flatMap_cons, ← List.append_assoc]
      exact hch.silent (ih _)

/-- **An escaped label shows the text**, without carriage returns. -/
theorem shows_rawLabel (s : List Char) :
    Dot.plainLabel.Reads false (rawLabel s) false (s.filter (· ≠ '\r')) := by
  induction s with
  | nil => exact .nil
  | cons ch s ih =>
      unfold rawLabel at ih ⊢
      rw [List.flatMap_cons]
      by_cases hreturn : ch = '\r'
      · subst hreturn
        exact ih
      · rw [List.filter_cons_of_pos (by simpa using hreturn)]
        show Dot.plainLabel.Reads _ _ _ ([ch] ++ _)
        refine Transducer.Reads.append ?_ ih
        unfold rawChar dotEscapeChar
        rw [if_neg hreturn]
        split_ifs with hquote hslash hline
        · subst hquote
          rfl
        · subst hslash
          rfl
        · subst hline
          rfl
        · have hstep : Dot.plainLabel.step false ch = (false, [ch]) := by
            simp [Dot.plainLabel, hslash]
          exact .cons hstep .nil

theorem nest_htmlEscape (s : List Char) (depth : Nat) :
    Dot.nest depth (htmlEscape s) = some depth := by
  induction s with
  | nil => rfl
  | cons c s ih =>
      have hc : Dot.nest depth (htmlEscapeChar c) = some depth := by
        unfold htmlEscapeChar
        split_ifs <;> first
          | rfl
          | simp [Dot.nest, *]
      exact (Dot.nest_append hc).trans ih

/-- A character that is in a label as it is, or as a line break. -/
def isShown (c : Char) : Bool := c == '\n' || Dot.isVisible c

/-- **Escaped HTML shows the text.** -/
theorem shows_htmlEscape {s : List Char} (h : ∀ c ∈ s, isShown c = true)
    (opened : List (List Char)) :
    Dot.htmlLabel.Reads (.text opened) (htmlEscape s) (.text opened) s := by
  have hself : s = s.flatMap fun c => [c] := by simp
  conv => arg 5; rw [hself]
  refine Transducer.Reads.flatMap fun c hc => ?_
  unfold htmlEscapeChar
  split_ifs with hamp hlt hgt hquot hapos hline
  case neg =>
      have hvisible : Dot.isVisible c = true := by simpa [isShown, hline] using h c hc
      have hstep : Dot.htmlLabel.step (.text opened) c = (.text opened, [c]) := by
        simp [Dot.htmlLabel, hamp, hlt, hgt, Dot.isXml, hvisible]
      exact .cons hstep .nil
  all_goals
    subst c
    rfl

/-! ## Reading the pieces -/

/-- `dot_id` makes names, apart from keywords. -/
theorem isName_dotId {s : String} (h : Dot.isKeyword (dotId s).toList = false) :
    Dot.IsName (dotId s).toList := by
  have hchar (c : Char) (hc : c ∈ s.toList.flatMap fun ch =>
      if ch.isAlphanum then [ch] else List.replicate ch.utf8Size '_') :
      c.isAlphanum = true ∨ c = '_' := by
    obtain ⟨ch, -, hc⟩ := List.mem_flatMap.1 hc
    split_ifs at hc with halnum
    · exact .inl (List.mem_singleton.1 hc ▸ halnum)
    · exact .inr (List.eq_of_mem_replicate hc)
  have hin (c : Char) (hc : c.isAlphanum = true ∨ c = '_') : Dot.inName c = true := by
    rcases hc with hc | rfl
    · simp only [Char.isAlphanum, Bool.or_eq_true] at hc
      rcases hc with hc | hc <;> simp [Dot.inName, Dot.startsName, hc]
    · decide
  refine ⟨?_, ?_, h⟩
  · simp only [dotId, String.toList_ofList]
    split_ifs with hdigit
    · rfl
    · generalize List.flatMap _ s.toList = out at hdigit hchar
      cases out with
      | nil => exact absurd rfl hdigit
      | cons c out =>
          have hc := hin c (hchar c List.mem_cons_self)
          simpa [Dot.inName, show c.isDigit = false by simpa using hdigit] using hc
  · intro c hc
    simp only [dotId, String.toList_ofList] at hc
    split_ifs at hc with hdigit
    · rcases List.mem_cons.1 hc with rfl | hc
      · decide
      · exact hin c (hchar c hc)
    · exact hin c (hchar c hc)

/-- The attributes of a box. -/
def boxAttrs (color head between name text : List Char) : Dot.Attrs :=
  [("fillcolor".toList, .plain color), ("label".toList,
    .html (head ++ htmlEscape name ++ between ++ htmlEscape text ++ "</FONT>".toList))]

/-- A box, as it is written. -/
theorem reads_box (color head : List Char) {node before between name text : List Char}
    (hnode : Dot.IsName node) (hspace : before.head?.any Dot.inName = false) (hmore : before ≠ [])
    (hbefore : Dot.lexer.Reads .idle before (.angle 0 head)
      [.sym '[', .id "fillcolor".toList, .sym '=', .quoted color, .sym ',', .id "label".toList,
        .sym '='])
    (hbetween : Dot.nest 0 between = some 0) :
    Dot.reader.Reads (.idle, .body)
      (os ["    "] ++ node ++ before ++ htmlEscape name ++ between ++ htmlEscape text ++
        os ["</FONT>>\n", "    ];\n"])
      (.idle, .body) [.attach (.node node) (boxAttrs color head between name text)] := by
  have hblank : Dot.lexer.Reads .idle (os ["    "]) .idle [] := by decide
  have hend : Dot.lexer.Reads .idle "\n    ];\n".toList .idle [.sym ']', .sym ';'] := by decide
  have htail : os ["</FONT>>\n", "    ];\n"] =
      "</FONT>".toList ++ '>' :: "\n    ];\n".toList := by decide
  have hpieces : os ["    "] ++ node ++ before ++ htmlEscape name ++ between ++ htmlEscape text ++
      os ["</FONT>>\n", "    ];\n"] = os ["    "] ++ (node ++ (before ++ (htmlEscape name ++
        (between ++ (htmlEscape text ++ ("</FONT>".toList ++ '>' :: "\n    ];\n".toList)))))) := by
    rw [htail]
    simp only [List.append_assoc]
  rw [hpieces]
  refine Transducer.Reads.comp (hblank.silent (hnode.reads ?_ ?_ (hbefore.append
    ((Dot.reads_nested (nest_htmlEscape name 0)).silent ((Dot.reads_nested hbetween).silent
      ((Dot.reads_nested (nest_htmlEscape text 0)).silent
        ((Dot.reads_nested (by decide)).silent (Dot.reads_endHtml hend)))))))) ?_
  · cases before with
    | nil => exact absurd rfl hmore
    | cons c before => exact hspace
  · exact List.append_ne_nil_of_left_ne_nil hmore _
  · exact .cons hnode.subject rfl

/-- A labelled edge. -/
theorem reads_dotEdge {src dst before after : String} {label : List Char} {ts : List Dot.Token}
    {attrs : Dot.Attrs} (hsrc : Dot.IsName src.toList) (hdst : Dot.IsName dst.toList)
    (hbefore : Dot.lexer.Reads (.quote []) before.toList (.quote before.toList) [])
    (hafter : Dot.lexer.Reads .idle after.toList .idle ts)
    (hattrs : Dot.parser.Reads (.attrs (.edge src.toList dst.toList)
      [("label".toList, .plain (before.toList ++ rawLabel label))]) ts .body
      [.attach (.edge src.toList dst.toList) attrs]) :
    Dot.reader.Reads (.idle, .body) (dotEdge src dst before label after) (.idle, .body)
      [.attach (.edge src.toList dst.toList) attrs] := by
  have hblank : Dot.lexer.Reads .idle (os ["  "]) .idle [] := by decide
  have harrow : Dot.lexer.Reads .idle (os [" -> "]) .idle [.arrow] := by decide
  have hopen : Dot.lexer.Reads .idle " [label=\"".toList (.quote [])
      [.sym '[', .id "label".toList, .sym '='] := by decide
  have hquoted : os ["\"", after] = '"' :: after.toList := by simp [os]
  have hopened : os [" [label=\"", before] = " [label=\"".toList ++ before.toList := by simp [os]
  simp only [dotEdge, List.append_assoc, hquoted, hopened]
  refine Transducer.Reads.comp (hblank.silent (hsrc.reads rfl (List.cons_ne_nil _ _) (harrow.append
    (hdst.reads rfl (List.cons_ne_nil _ _) (hopen.append (hbefore.silent
      ((reads_dotEscapeLabel label _).silent (Dot.reads_endQuote hafter)))))))) ?_
  exact .cons hsrc.subject (.cons rfl (.cons (hdst.edge _) (.cons rfl (.cons rfl (.cons rfl
    (.cons rfl hattrs))))))

/-! ## Labels as lists of names -/

/-- What stands between the names of a label. -/
def isBetween (c : Char) : Bool := c == ',' || c == ' ' || c == '\n'

/-- The names in a label. -/
def listed (text : List Char) : List (List Char) := words isBetween text

theorem clean_name (id : MsgId) :
    id.name.toList ≠ [] ∧ ∀ c ∈ id.name.toList, isBetween c = false ∧ c ≠ '\r' := by
  have hclean : id.name.toList ≠ [] ∧
      id.name.toList.all (fun c => !isBetween c && c != '\r') = true := by
    cases id <;> decide
  refine ⟨hclean.1, fun c hc => ?_⟩
  simpa using List.all_eq_true.1 hclean.2 c hc

section

variable {names : Finset String}

/-- The loop of `build_label`: after the first name each one starts after a separator. -/
theorem listed_foldl {ns : List String} (hns : ∀ n ∈ ns, ∃ id : MsgId, n = id.name)
    {s : List Char × Nat} (hs : s.2 = 0 → s.1 = []) :
    listed (ns.foldl addName s).1 = listed s.1 ++ ns.map String.toList := by
  induction ns generalizing s with
  | nil => simp
  | cons n ns ih =>
      obtain ⟨id, rfl⟩ := hns n List.mem_cons_self
      obtain ⟨hne, hclean⟩ := clean_name id
      have hword : listed id.name.toList = [id.name.toList] := by
        rw [listed, words_of_clean fun c hc => (hclean c hc).1, if_neg (by simpa using hne)]
      have hrest := ih (fun n hn => hns n (.tail _ hn)) (s := addName s id.name) fun h =>
        absurd h (Nat.succ_ne_zero _)
      rw [List.foldl_cons, hrest]
      rw [List.map_cons, ← List.singleton_append (x := id.name.toList), ← List.append_assoc]
      refine congrArg (· ++ _) ?_
      unfold addName
      dsimp only
      split_ifs with hpos heven
      · rw [List.append_assoc, listed, List.singleton_append, words_append_cons _ _ (by decide)]
        exact congrArg _ hword
      · rw [List.append_assoc, listed, List.cons_append, words_append_cons _ _ (by decide),
          List.singleton_append, ← List.nil_append (' ' :: _), words_append_cons _ _ (by decide)]
        exact congrArg _ hword
      · rw [hs (by omega)]
        exact hword

/-- **A label lists the names.** -/
theorem listed_buildLabel (hnames : ∀ n ∈ names, ∃ id : MsgId, n = id.name) :
    listed (buildLabel names) = (names.sort (· ≤ ·)).map String.toList :=
  listed_foldl (fun n hn => hnames n ((Finset.mem_sort _).1 hn)) fun _ => rfl

/-- A label has no carriage returns. -/
theorem filter_buildLabel (hnames : ∀ n ∈ names, ∃ id : MsgId, n = id.name) :
    (buildLabel names).filter (· ≠ '\r') = buildLabel names := by
  refine List.filter_eq_self.2 (List.foldlRecOn
    (motive := fun s : List Char × Nat => ∀ c ∈ s.1, decide (c ≠ '\r') = true)
    (names.sort (· ≤ ·)) _ (by simp) fun s hs n hn c hc => ?_)
  obtain ⟨id, rfl⟩ := hnames n ((Finset.mem_sort _).1 hn)
  unfold addName at hc
  rcases List.mem_append.1 hc with hc | hc
  · split_ifs at hc
    · rcases List.mem_append.1 hc with hc | hc
      · exact hs c hc
      · exact decide_eq_true (by simp_all)
    · rcases List.mem_append.1 hc with hc | hc
      · exact hs c hc
      · simp only [List.mem_cons, List.not_mem_nil, or_false] at hc
        rcases hc with rfl | rfl <;> decide
    · exact hs c hc
  · exact decide_eq_true ((clean_name id).2 c hc).2

end

/-! ## What is drawn where -/

section

variable {components : List Component}

/-- The names on an edge are names of messages. -/
theorem mem_edges_iff {n src dst : String} :
    n ∈ (collectEdges components).edges (src, dst) ↔
      ∃ id : MsgId, n = id.name ∧ Draws components id src dst := by
  refine (foldl_adds (P := fun d : Diagram => n ∈ d.edges (src, dst))
    (Q := fun id : MsgId => n = id.name ∧ Draws components id src dst)
    (fun _ _ => mem_edges_collectMsgEdges) _ _).trans ?_
  simp [MsgId.mem_all]

theorem mem_inbound_iff {n : String} :
    n ∈ (collectEdges components).inboundMsgNames ↔
      ∃ id : MsgId, n = id.name ∧ (direction components id = .inbound ∨
        direction components id = .bidirectional) := by
  refine (foldl_adds (P := fun d : Diagram => n ∈ d.inboundMsgNames)
    (Q := fun id : MsgId => n = id.name ∧ (direction components id = .inbound ∨
      direction components id = .bidirectional))
    (fun _ _ => mem_inbound_collectMsgEdges) _ _).trans ?_
  simp [MsgId.mem_all]

theorem mem_outbound_iff {n : String} :
    n ∈ (collectEdges components).outboundMsgNames ↔
      ∃ id : MsgId, n = id.name ∧ (direction components id = .outbound ∨
        direction components id = .bidirectional) := by
  refine (foldl_adds (P := fun d : Diagram => n ∈ d.outboundMsgNames)
    (Q := fun id : MsgId => n = id.name ∧ (direction components id = .outbound ∨
      direction components id = .bidirectional))
    (fun _ _ => mem_outbound_collectMsgEdges) _ _).trans ?_
  simp [MsgId.mem_all]

theorem mem_nodes_of_draws {id : MsgId} {src dst : String} (h : Draws components id src dst) :
    src ∈ nodes components ∧ dst ∈ nodes components := by
  have hpub {bridge : Bool} {node : String} (h : PublisherAt components id bridge node) :
      node ∈ nodes components := by
    obtain ⟨c, hc, -, -, rfl⟩ := h
    exact Finset.mem_insert_of_mem (List.mem_toFinset.2 (List.mem_map.2 ⟨c, hc, rfl⟩))
  have hsub {bridge : Bool} {node : String} (h : SubscriberAt components id bridge node) :
      node ∈ nodes components := by
    obtain ⟨c, hc, -, -, rfl⟩ := h
    exact Finset.mem_insert_of_mem (List.mem_toFinset.2 (List.mem_map.2 ⟨c, hc, rfl⟩))
  have hbridge : dotId "UdpBridge" ∈ nodes components := Finset.mem_insert_self _ _
  unfold Draws at h
  split at h
  · exact ⟨h.1 ▸ hbridge, hsub h.2⟩
  · exact ⟨hpub h.2, h.1 ▸ hbridge⟩
  · rcases h with h | h
    · exact ⟨h.1 ▸ hbridge, hsub h.2⟩
    · exact ⟨hpub h.2, h.1 ▸ hbridge⟩
  · exact ⟨hpub h.1, hsub h.2⟩

/-- The pairs of the map. -/
theorem mem_edgePairs {src dst : String} :
    (src, dst) ∈ edgePairs components ↔ (collectEdges components).edges (src, dst) ≠ ∅ := by
  have hmem : (src, dst) ∈ edgePairs components ↔ (src ∈ nodes components ∧
      dst ∈ nodes components) ∧ (collectEdges components).edges (src, dst) ≠ ∅ := by
    simp [edgePairs]
  refine hmem.trans ⟨fun h => h.2, fun h => ⟨?_, h⟩⟩
  obtain ⟨n, hn⟩ := Finset.nonempty_iff_ne_empty.2 h
  obtain ⟨id, -, hdraws⟩ := mem_edges_iff.1 hn
  exact mem_nodes_of_draws hdraws

/-! ## What the file is to show -/

/-- The label of a node shows the text. -/
def Boxed (stmts : List Dot.Stmt) (node : String) (text : List Char) : Prop :=
  ∃ label, Dot.valueOf "label".toList (Dot.nodeAttrs stmts node.toList) = some label ∧
    label.shows text

/-- The edges from one node to another. -/
def edgesBetween (stmts : List Dot.Stmt) (src dst : String) : List Dot.Attrs :=
  ((Dot.edges stmts).filter fun e => e.1 = (src.toList, dst.toList)).map Prod.snd

def isDashed (attrs : Dot.Attrs) : Bool :=
  Dot.valueOf "style".toList attrs = some (.plain "dashed".toList)

/-- The label of an edge shows the text and behind it the names, in their order. -/
def Lists (attrs : Dot.Attrs) (before : String) (names : Finset String) : Prop :=
  ∃ label text, Dot.valueOf "label".toList attrs = some label ∧
    label.shows (before.toList ++ text) ∧ listed text = (names.sort (· ≤ ·)).map String.toList

/-- The boxes outside the simulator. -/
def fixedBoxes : List (String × String) :=
  [("TX", "TX Socket\nPort 9000 (SIL Inbound)"), ("RX", "RX Socket\nPort 9001 (SIL Outbound)"),
    ("TestCase", "Test Case / Fixtures")]

/-- The file shows the diagram. -/
structure ShowsFlow (components : List Component) (desc : Component → List Char)
    (stmts : List Dot.Stmt) : Prop where
  readable : ∀ stmt ∈ stmts, stmt.readable = true
  box : ∀ c ∈ components, Boxed stmts (dotId c.name) (c.name.toList ++ '\n' :: descText c (desc c))
  fixed : ∀ b ∈ fixedBoxes, Boxed stmts b.1 b.2.toList
  drawn : ∀ src dst, (collectEdges components).edges (src, dst) ≠ ∅ →
    ∃ attrs, (edgesBetween stmts src dst).filter isDashed = [attrs] ∧
      Lists attrs "" ((collectEdges components).edges (src, dst))
  undrawn : ∀ src dst, (collectEdges components).edges (src, dst) = ∅ →
    (edgesBetween stmts src dst).filter isDashed = []
  inbound : ∃ attrs, edgesBetween stmts "TX" (dotId "UdpBridge") = [attrs] ∧
    Lists attrs "Inbound Traffic:\n" (collectEdges components).inboundMsgNames
  outbound : ∃ attrs, edgesBetween stmts "RX" (dotId "UdpBridge") = [attrs] ∧
    Lists attrs "Outbound Traffic:\n" (collectEdges components).outboundMsgNames

/-- The components have nodes of their own, and no keyword among them. -/
structure Nameable (components : List Component) : Prop where
  free : ∀ c ∈ components, Dot.isKeyword (dotId c.name).toList = false
  distinct : (components.map fun c => dotId c.name).Nodup
  apart : ∀ c ∈ components, dotId c.name ∉ fixedBoxes.map Prod.fst

/-- The texts are of characters XML can hold. `wrap_words` counts the `char`s of a description,
    which are its characters in ASCII. -/
structure Legible (components : List Component) (desc : Component → List Char) : Prop where
  name : ∀ c ∈ components, ∀ ch ∈ c.name.toList, Dot.isVisible ch = true
  desc : ∀ c ∈ components, ∀ ch ∈ desc c, isSeparator ch = true ∨ ' ' ≤ ch ∧ ch ≤ '~'

/-- What is in the box of a component is shown. -/
theorem Legible.descText {desc : Component → List Char} (h : Legible components desc)
    {c : Component} (hc : c ∈ components) : ∀ ch ∈ descText c (desc c), isShown ch = true := by
  intro ch hch
  unfold ReflectPytest.descText at hch
  dsimp only at hch
  split_ifs at hch
  · simp [isShown, h.name c hc ch hch]
  · rcases mem_wrapWords hch with hbreak | ⟨hmem, hsep⟩
    · simp only [isBreak, Bool.or_eq_true, beq_iff_eq] at hbreak
      rcases hbreak with rfl | rfl <;> decide
    · have hmem : ch ∈ desc c := by
        unfold firstSentence at hmem
        split at hmem
        · exact hmem
        · exact List.mem_of_mem_take hmem
      obtain ⟨hlow, hhigh⟩ := (h.desc c hc ch hmem).resolve_left (ne_true_of_eq_false hsep)
      have hne (d : Char) (hd : '~' < d) : ch ≠ d := fun heq => absurd hhigh (heq ▸ not_le.2 hd)
      simp [isShown, Dot.isVisible, hlow, hne '\uFFFE' (by decide), hne '\uFFFF' (by decide)]

/-! ## The file as a whole -/

theorem shows_box {color head between name text : List Char}
    (hcolor : (Dot.Value.plain color).readable = true)
    (hhead : Dot.htmlLabel.Reads (.text []) head (.text ["FONT".toList, "B".toList]) [])
    (hname : ∀ ch ∈ name, isShown ch = true)
    (hbetween : Dot.htmlLabel.Reads (.text ["FONT".toList, "B".toList]) between
      (.text ["FONT".toList]) ['\n'])
    (htext : ∀ ch ∈ text, isShown ch = true) :
    let attrs := boxAttrs color head between name text
    (∃ label, Dot.valueOf "label".toList attrs = some label ∧
      label.shows (name ++ '\n' :: text)) ∧ attrs.all (fun a => a.2.readable) = true := by
  have hend : Dot.htmlLabel.Reads (.text ["FONT".toList]) "</FONT>".toList (.text []) [] := by
    decide
  have hall := (((hhead.append (shows_htmlEscape hname _)).append hbetween).append
    (shows_htmlEscape htext _)).append hend
  rw [List.nil_append, List.append_nil, List.append_assoc name] at hall
  have hlabel : (Dot.Value.html (head ++ htmlEscape name ++ between ++ htmlEscape text ++
      "</FONT>".toList)).shows (name ++ '\n' :: text) := hall
  refine ⟨⟨_, rfl, hlabel⟩, ?_⟩
  simp only [boxAttrs, List.all_cons, List.all_nil, hcolor, hlabel.readable, Bool.and_self]

/-- The attributes of the box of a component. -/
def componentAttrs (c : Component) (desc : List Char) : Dot.Attrs :=
  if c.isUdpBridge then
    boxAttrs "#0F766E".toList "<B><FONT POINT-SIZE=\"38\">".toList
      "</FONT></B><BR/><FONT POINT-SIZE=\"26\">".toList c.name.toList (descText c desc)
  else
    boxAttrs "#0369A1".toList "<B><FONT POINT-SIZE=\"30\">".toList
      "</FONT></B><BR/><FONT POINT-SIZE=\"24\">".toList c.name.toList (descText c desc)

/-- **The box of a component.** -/
theorem reads_dotNode {c : Component} (hname : Dot.IsName (dotId c.name).toList)
    (desc : List Char) : Dot.reader.Reads (.idle, .body) (dotNode c desc) (.idle, .body)
      [.attach (.node (dotId c.name).toList) (componentAttrs c desc)] := by
  unfold dotNode componentAttrs
  split_ifs with hbridge
  · rw [← c.named hbridge]
    refine reads_box "#0F766E".toList "<B><FONT POINT-SIZE=\"38\">".toList hname rfl (by decide) ?_
      (by decide)
    simp only [os, List.flatMap_cons, List.flatMap_nil, -String.reduceToList]
    repeat rw [String.toList_ofList]
    decide
  · refine reads_box "#0369A1".toList "<B><FONT POINT-SIZE=\"30\">".toList hname rfl (by decide) ?_
      (by decide)
    simp only [os, List.flatMap_cons, List.flatMap_nil, -String.reduceToList]
    repeat rw [String.toList_ofList]
    decide

/-- The box shows the name and the text. -/
theorem shows_componentAttrs {desc : Component → List Char} (h : Legible components desc)
    {c : Component} (hc : c ∈ components) :
    let attrs := componentAttrs c (desc c)
    (∃ label, Dot.valueOf "label".toList attrs = some label ∧
      label.shows (c.name.toList ++ '\n' :: descText c (desc c))) ∧
        attrs.all (fun a => a.2.readable) = true := by
  have hname : ∀ ch ∈ c.name.toList, isShown ch = true := fun ch hch => by
    simp [isShown, h.name c hc ch hch]
  unfold componentAttrs
  split_ifs
  · exact shows_box (by decide) (by decide) hname (by decide) (h.descText hc)
  · exact shows_box (by decide) (by decide) hname (by decide) (h.descText hc)

/-- The attributes of the three kinds of edges, after the label. -/
def inboundAttrs : Dot.Attrs :=
  [("color".toList, .plain "#F1F5F9".toList), ("penwidth".toList, .plain "5".toList),
    ("fontsize".toList, .plain "25".toList)]

def dashedAttrs : Dot.Attrs := [("style".toList, .plain "dashed".toList)]

def outboundAttrs : Dot.Attrs :=
  [("color".toList, .plain "#F1F5F9".toList), ("penwidth".toList, .plain "5".toList),
    ("dir".toList, .plain "back".toList), ("fontsize".toList, .plain "25".toList),
    ("arrowtail".toList, .plain "normal".toList)]

/-- The attributes of an edge with a label. -/
def labelled (before : String) (label : List Char) (attrs : Dot.Attrs) : Dot.Attrs :=
  ("label".toList, .plain (before.toList ++ rawLabel label)) :: attrs

/-- The statement of a labelled edge. -/
def edgeStmt (src dst before : String) (label : List Char) (attrs : Dot.Attrs) : Dot.Stmt :=
  .attach (.edge src.toList dst.toList) (labelled before label attrs)

theorem reads_dashed {src dst : String} (hsrc : Dot.IsName src.toList)
    (hdst : Dot.IsName dst.toList) (label : List Char) :
    Dot.reader.Reads (.idle, .body) (dotEdge src dst "" label ", style=dashed];\n")
      (.idle, .body) [edgeStmt src dst "" label dashedAttrs] := by
  have hafter : Dot.lexer.Reads .idle ", style=dashed];\n".toList .idle
      [.sym ',', .id "style".toList, .sym '=', .id "dashed".toList, .sym ']', .sym ';'] := by
    repeat rw [String.toList_ofList]
    decide
  exact reads_dotEdge hsrc hdst rfl hafter rfl

theorem isName_socket {name : String} (h : name = "TX" ∨ name = "RX") :
    Dot.IsName name.toList := by
  rcases h with rfl | rfl <;> exact ⟨by decide, List.all_eq_true.1 (by decide), by decide⟩

theorem reads_inbound {dst : String} (hdst : Dot.IsName dst.toList) (label : List Char) :
    Dot.reader.Reads (.idle, .body) (dotEdge "TX" dst "Inbound Traffic:\\n" label
      ", color=\"#F1F5F9\", penwidth=5, fontsize=25];\n\n") (.idle, .body)
      [edgeStmt "TX" dst "Inbound Traffic:\\n" label inboundAttrs] := by
  have hafter : Dot.lexer.Reads .idle
      ", color=\"#F1F5F9\", penwidth=5, fontsize=25];\n\n".toList .idle
      [.sym ',', .id "color".toList, .sym '=', .quoted "#F1F5F9".toList, .sym ',',
        .id "penwidth".toList, .sym '=', .id "5".toList, .sym ',', .id "fontsize".toList, .sym '=',
        .id "25".toList, .sym ']', .sym ';'] := by
    repeat rw [String.toList_ofList]
    decide
  exact reads_dotEdge (isName_socket (.inl rfl)) hdst (by decide) hafter rfl

theorem reads_outbound {dst : String} (hdst : Dot.IsName dst.toList) (label : List Char) :
    Dot.reader.Reads (.idle, .body) (dotEdge "RX" dst "Outbound Traffic:\\n" label
      ", color=\"#F1F5F9\", penwidth=5, dir=back, fontsize=25, arrowtail=normal];\n")
      (.idle, .body) [edgeStmt "RX" dst "Outbound Traffic:\\n" label outboundAttrs] := by
  have hafter : Dot.lexer.Reads .idle
      ", color=\"#F1F5F9\", penwidth=5, dir=back, fontsize=25, arrowtail=normal];\n".toList .idle
      [.sym ',', .id "color".toList, .sym '=', .quoted "#F1F5F9".toList, .sym ',',
        .id "penwidth".toList, .sym '=', .id "5".toList, .sym ',', .id "dir".toList, .sym '=',
        .id "back".toList, .sym ',', .id "fontsize".toList, .sym '=', .id "25".toList, .sym ',',
        .id "arrowtail".toList, .sym '=', .id "normal".toList, .sym ']', .sym ';'] := by
    repeat rw [String.toList_ofList]
    decide +kernel
  exact reads_dotEdge (isName_socket (.inr rfl)) hdst (by decide) hafter rfl

/-- The statements before the components, without the brace of the graph. -/
def headerStmts : List Dot.Stmt := (Dot.reader.run (.idle, .start) dotHeader).2.tail

def socketStmts : List Dot.Stmt := (Dot.reader.run (.idle, .body) dotSockets).2

theorem header_facts :
    let r := Dot.reader.run (.idle, .start) dotHeader
    r.1 = (.idle, .body) ∧ r.2.head? = some (.opens (some "IPC".toList)) ∧
      Dot.depthAfter 1 r.2.tail = some 2 ∧ Dot.nodeStmts r.2.tail = [] ∧
        Dot.edges r.2.tail = [] ∧ r.2.tail.all Dot.Stmt.readable = true := by
  simp only [dotHeader, os, List.flatMap_cons, List.flatMap_nil, -String.reduceToList]
  -- the kernel is slow at decoding strings
  repeat rw [String.toList_ofList]
  decide +kernel

theorem sockets_facts :
    let r := Dot.reader.run (.idle, .body) dotSockets
    r.1 = (.idle, .body) ∧ Dot.depthAfter 2 r.2 = some 1 ∧ r.2.all Dot.Stmt.readable = true ∧
      (∀ s ∈ Dot.nodeStmts r.2, s.1 ∈ fixedBoxes.map fun b => b.1.toList) ∧
      (∀ e ∈ Dot.edges r.2, e.1.2 ∈ ["TX".toList, "RX".toList] ∧ isDashed e.2 = false) ∧
      ∀ b ∈ fixedBoxes, (Dot.valueOf "label".toList (Dot.nodeAttrs r.2 b.1.toList)).any
        fun label => label.shows b.2.toList := by
  simp only [dotSockets, os, List.flatMap_cons, List.flatMap_nil, -String.reduceToList]
  repeat rw [String.toList_ofList]
  decide +kernel

theorem nodes_sockets : ∀ s ∈ Dot.nodeStmts socketStmts, s.1 ∈ fixedBoxes.map fun b => b.1.toList :=
  sockets_facts.2.2.2.1

theorem boxed_sockets : ∀ b ∈ fixedBoxes,
    (Dot.valueOf "label".toList (Dot.nodeAttrs socketStmts b.1.toList)).any
      fun label => label.shows b.2.toList :=
  sockets_facts.2.2.2.2.2

theorem edges_sockets : ∀ e ∈ Dot.edges socketStmts,
    e.1.2 ∈ ["TX".toList, "RX".toList] ∧ isDashed e.2 = false :=
  sockets_facts.2.2.2.2.1

theorem reads_header : Dot.reader.Reads (.idle, .start) dotHeader (.idle, .body)
    (.opens (some "IPC".toList) :: headerStmts) := by
  obtain ⟨hstate, hhead, -⟩ := header_facts
  exact Prod.ext hstate (List.eq_cons_of_mem_head? (Option.mem_def.2 hhead))

theorem reads_sockets : Dot.reader.Reads (.idle, .body) dotSockets (.idle, .body) socketStmts :=
  Prod.ext sockets_facts.1 rfl

/-- The last edge of the file. -/
def recvStmt : Dot.Stmt :=
  .attach (.edge "TestCase".toList "RX".toList)
    [("label".toList, .plain "recv_msg".toList), ("color".toList, .plain "#F1F5F9".toList),
      ("penwidth".toList, .plain "5".toList), ("dir".toList, .plain "back".toList),
      ("arrowtail".toList, .plain "normal".toList)]

def boxStmts (components : List Component) (desc : Component → List Char) : List Dot.Stmt :=
  components.map fun c => .attach (.node (dotId c.name).toList) (componentAttrs c (desc c))

def dashedStmts (components : List Component) : List Dot.Stmt :=
  (edgePairs components).map fun pair =>
    edgeStmt pair.1 pair.2 "" (buildLabel ((collectEdges components).edges pair)) dashedAttrs

/-- The statements of the file, between the braces of the graph. -/
def flowStmts (components : List Component) (desc : Component → List Char) : List Dot.Stmt :=
  let ubId := dotId "UdpBridge"
  let d := collectEdges components
  headerStmts ++ boxStmts components desc ++ socketStmts ++
    [edgeStmt "TX" ubId "Inbound Traffic:\\n" (buildLabel d.inboundMsgNames) inboundAttrs] ++
    dashedStmts components ++
    [edgeStmt "RX" ubId "Outbound Traffic:\\n" (buildLabel d.outboundMsgNames) outboundAttrs] ++
    [recvStmt]

theorem isName_of_mem_nodes (h : Nameable components) {node : String}
    (hnode : node ∈ nodes components) : Dot.IsName node.toList := by
  rcases Finset.mem_insert.1 hnode with rfl | hnode
  · exact isName_dotId (by decide)
  · obtain ⟨c, hc, rfl⟩ := List.mem_map.1 (List.mem_toFinset.1 hnode)
    exact isName_dotId (h.free c hc)

theorem mem_nodes_of_mem_edgePairs {src dst : String} (h : (src, dst) ∈ edgePairs components) :
    src ∈ nodes components ∧ dst ∈ nodes components := by
  obtain ⟨n, hn⟩ := Finset.nonempty_iff_ne_empty.2 (mem_edgePairs.1 h)
  obtain ⟨id, -, hdraws⟩ := mem_edges_iff.1 hn
  exact mem_nodes_of_draws hdraws

theorem reads_flow (h : Nameable components) (desc : Component → List Char) :
    Dot.reader.Reads (.idle, .start) (emitGraphvizFlowDot components desc) (.idle, .body)
      (.opens (some "IPC".toList) :: (flowStmts components desc ++ [.closes])) := by
  have hbridge : Dot.IsName (dotId "UdpBridge").toList := isName_dotId (by decide)
  have hboxes : Dot.reader.Reads (.idle, .body)
      (components.flatMap fun c => dotNode c (desc c)) (.idle, .body)
      (boxStmts components desc) := by
    rw [boxStmts, List.map_eq_flatMap]
    exact .flatMap fun c hc => reads_dotNode (isName_dotId (h.free c hc)) (desc c)
  have hedges : Dot.reader.Reads (.idle, .body)
      ((edgePairs components).flatMap fun pair => dotEdge pair.1 pair.2 ""
        (buildLabel ((collectEdges components).edges pair)) ", style=dashed];\n") (.idle, .body)
      (dashedStmts components) := by
    rw [dashedStmts, List.map_eq_flatMap]
    refine .flatMap fun pair hpair => ?_
    obtain ⟨hsrc, hdst⟩ : pair.1 ∈ nodes components ∧ pair.2 ∈ nodes components :=
      mem_nodes_of_mem_edgePairs hpair
    exact reads_dashed (isName_of_mem_nodes h hsrc) (isName_of_mem_nodes h hdst) _
  have hinternal : Dot.reader.Reads (.idle, .body) (os ["  // Internal Simulator Logic\n"])
      (.idle, .body) [] := by
    simp only [os, List.flatMap_cons, List.flatMap_nil, -String.reduceToList]
    repeat rw [String.toList_ofList]
    decide
  have hback : Dot.reader.Reads (.idle, .body)
      (os ["\n  // Flow: Simulator -> Network -> Test Harness\n"]) (.idle, .body) [] := by
    simp only [os, List.flatMap_cons, List.flatMap_nil, -String.reduceToList]
    repeat rw [String.toList_ofList]
    decide
  have hfooter : Dot.reader.Reads (.idle, .body) dotFooter (.idle, .body)
      ([recvStmt] ++ [.closes]) := by
    simp only [dotFooter, recvStmt, os, List.flatMap_cons, List.flatMap_nil, -String.reduceToList]
    repeat rw [String.toList_ofList]
    decide +kernel
  have hall := (((((((reads_header.append hboxes).append reads_sockets).append
    (reads_inbound hbridge (buildLabel (collectEdges components).inboundMsgNames))).append
      hinternal).append hedges).append hback).append (reads_outbound hbridge
        (buildLabel (collectEdges components).outboundMsgNames))).append hfooter
  unfold flowStmts
  simp only [List.append_nil, List.cons_append, List.append_assoc] at hall ⊢
  simp only [emitGraphvizFlowDot, List.append_assoc]
  exact hall

theorem depthAfter_flow (components : List Component) (desc : Component → List Char) :
    Dot.depthAfter 1 (flowStmts components desc) = some 1 := by
  have hboxes : Dot.depthAfter 2 (boxStmts components desc) = some 2 := by
    refine Dot.depthAfter_attach (fun stmt hstmt => ?_) 2
    obtain ⟨c, -, rfl⟩ := List.mem_map.1 hstmt
    exact ⟨_, _, rfl⟩
  have hheader : Dot.depthAfter 1 headerStmts = some 2 := header_facts.2.2.1
  have hsockets : Dot.depthAfter 2 socketStmts = some 1 := sockets_facts.2.1
  unfold flowStmts
  simp only [List.append_assoc]
  rw [Dot.depthAfter_append hheader, Dot.depthAfter_append hboxes, Dot.depthAfter_append hsockets]
  refine Dot.depthAfter_attach (fun stmt hstmt => ?_) 1
  simp only [dashedStmts, List.mem_append, List.mem_singleton, List.mem_map] at hstmt
  rcases hstmt with rfl | ⟨pair, -, rfl⟩ | rfl | rfl <;> exact ⟨_, _, rfl⟩

/-! ## What it shows -/

/-- A label of an edge shows the text before the names and the names. -/
theorem shows_edgeLabel {before : List Char} {text : List Char} {names : Finset String}
    (hbefore : Dot.plainLabel.Reads false before false text)
    (hnames : ∀ n ∈ names, ∃ id : MsgId, n = id.name) :
    (Dot.Value.plain (before ++ rawLabel (buildLabel names))).shows (text ++ buildLabel names) := by
  have hall := hbefore.append (shows_rawLabel (buildLabel names))
  rwa [filter_buildLabel hnames] at hall

/-- The label of an edge shows what is before the names, and lists them. -/
theorem lists_labelled {before text : String} {names : Finset String} {attrs : Dot.Attrs}
    (hattrs : Dot.valueOf "label".toList attrs = none)
    (hbefore : Dot.plainLabel.Reads false before.toList false text.toList)
    (hnames : ∀ n ∈ names, ∃ id : MsgId, n = id.name) :
    Lists (labelled before (buildLabel names) attrs) text names := by
  have hlabel : Dot.valueOf "label".toList (labelled before (buildLabel names) attrs) =
      some (.plain (before.toList ++ rawLabel (buildLabel names))) := by
    rw [Dot.valueOf] at hattrs
    rw [Dot.valueOf, labelled, List.reverse_cons, List.lookup_append, hattrs, Option.none_or,
      List.lookup_cons_self]
  exact ⟨_, _, hlabel, shows_edgeLabel hbefore hnames, listed_buildLabel hnames⟩

theorem nodup_edgePairs : (edgePairs components).Nodup :=
  List.Nodup.map ofLex.injective (Finset.sort_nodup _ _)

/-- Each pair is in the map once, if at all. -/
theorem filter_edgePairs (pair : String × String) :
    (edgePairs components).filter (· = pair) =
      if (collectEdges components).edges pair = ∅ then [] else [pair] := by
  rw [List.filter_eq]
  split_ifs with h
  · have hcount : (edgePairs components).count pair = 0 :=
      List.count_eq_zero.2 fun hmem => mem_edgePairs.1 hmem h
    rw [hcount]
    rfl
  · rw [List.count_eq_one_of_mem nodup_edgePairs (mem_edgePairs.2 h)]
    rfl

/-- The edges of the file. -/
theorem edges_flow (components : List Component) (desc : Component → List Char) :
    let ubId := (dotId "UdpBridge").toList
    let d := collectEdges components
    Dot.edges (flowStmts components desc) = Dot.edges socketStmts ++
      [(("TX".toList, ubId), labelled "Inbound Traffic:\\n" (buildLabel d.inboundMsgNames)
        inboundAttrs)] ++
      (edgePairs components).map (fun pair =>
        ((pair.1.toList, pair.2.toList), labelled "" (buildLabel (d.edges pair)) dashedAttrs)) ++
      [(("RX".toList, ubId), labelled "Outbound Traffic:\\n" (buildLabel d.outboundMsgNames)
        outboundAttrs)] ++
      Dot.edges [recvStmt] := by
  have hheader : Dot.edges headerStmts = [] := header_facts.2.2.2.2.1
  have hboxes : Dot.edges (boxStmts components desc) = [] := by
    simp [Dot.edges, boxStmts]
  have hdashed : Dot.edges (dashedStmts components) = (edgePairs components).map fun pair =>
      ((pair.1.toList, pair.2.toList), labelled "" (buildLabel
        ((collectEdges components).edges pair)) dashedAttrs) := by
    rw [Dot.edges, dashedStmts, List.filterMap_map]
    exact congrFun List.filterMap_eq_map' _
  have hedge (src dst before : String) (label : List Char) (attrs : Dot.Attrs) :
      Dot.edges [edgeStmt src dst before label attrs] =
        [((src.toList, dst.toList), labelled before label attrs)] := rfl
  unfold flowStmts
  dsimp only
  repeat rw [Dot.edges_append]
  rw [hheader, hboxes, hdashed, hedge, hedge, List.nil_append, List.nil_append]

theorem isDashed_labelled (before : String) (label : List Char) :
    isDashed (labelled before label inboundAttrs) = false ∧
      isDashed (labelled before label dashedAttrs) = true ∧
      isDashed (labelled before label outboundAttrs) = false :=
  ⟨rfl, rfl, rfl⟩

/-- The dashed edges between two nodes. -/
theorem dashed_flow (components : List Component) (desc : Component → List Char)
    (src dst : String) :
    (edgesBetween (flowStmts components desc) src dst).filter isDashed =
      if (collectEdges components).edges (src, dst) = ∅ then []
      else [labelled "" (buildLabel ((collectEdges components).edges (src, dst))) dashedAttrs] := by
  let drawn : (List Char × List Char) × Dot.Attrs → Bool := fun e =>
    isDashed e.2 && decide (e.1 = (src.toList, dst.toList))
  have hsolid (es : List ((List Char × List Char) × Dot.Attrs))
      (h : ∀ e ∈ es, isDashed e.2 = false) : es.filter drawn = [] :=
    List.filter_eq_nil_iff.2 fun e he => by simp [drawn, h e he]
  have hpairs : ((edgePairs components).map fun pair => ((pair.1.toList, pair.2.toList),
      labelled "" (buildLabel ((collectEdges components).edges pair)) dashedAttrs)).filter drawn =
      ((edgePairs components).filter (· = (src, dst))).map fun pair =>
        ((pair.1.toList, pair.2.toList),
          labelled "" (buildLabel ((collectEdges components).edges pair)) dashedAttrs) := by
    rw [List.filter_map]
    refine congrArg _ (List.filter_congr fun pair _ => ?_)
    simp [drawn, (isDashed_labelled _ _).2.1, Prod.ext_iff, String.toList_inj]
  have hsockets := hsolid (Dot.edges socketStmts) fun e he => (edges_sockets e he).2
  have hone (key : List Char × List Char) {attrs : Dot.Attrs} (h : isDashed attrs = false) :=
    hsolid [(key, attrs)] fun e he => List.mem_singleton.1 he ▸ h
  have hrecv := hsolid (Dot.edges [recvStmt]) fun e he => List.mem_singleton.1 he ▸ rfl
  rw [edgesBetween, List.filter_map, List.filter_filter, edges_flow]
  show ((_ ++ _ ++ _ ++ _ ++ _ : List _).filter drawn).map Prod.snd = _
  rw [List.filter_append, List.filter_append, List.filter_append, List.filter_append, hsockets,
    hpairs, hrecv, filter_edgePairs, hone _ (isDashed_labelled _ _).1,
    hone _ (isDashed_labelled _ _).2.2]
  split_ifs <;> rfl

/-- A node of the file has the attributes of the components and of the boxes around them. -/
theorem nodeAttrs_flow (components : List Component) (desc : Component → List Char)
    (node : List Char) : Dot.nodeAttrs (flowStmts components desc) node =
      Dot.nodeAttrs (boxStmts components desc) node ++ Dot.nodeAttrs socketStmts node := by
  have hheader : Dot.nodeAttrs headerStmts node = [] :=
    congrArg (List.flatMap _) header_facts.2.2.2.1
  have hdashed : Dot.nodeAttrs (dashedStmts components) node = [] :=
    Dot.nodeAttrs_eq_nil fun attrs hmem => by
      obtain ⟨pair, -, hpair⟩ := List.mem_map.1 hmem
      exact absurd hpair (by simp [edgeStmt])
  have hedge (src dst before : String) (label : List Char) (attrs : Dot.Attrs) :
      Dot.nodeAttrs [edgeStmt src dst before label attrs] node = [] := rfl
  have hrecv : Dot.nodeAttrs [recvStmt] node = [] := rfl
  simp only [flowStmts, Dot.nodeAttrs_append, hheader, hdashed, hedge, hrecv, List.nil_append,
    List.append_nil]

/-- The boxes of the components are about nodes of their own. -/
theorem Nameable.boxed (h : Nameable components) {desc : Component → List Char}
    (htext : Legible components desc) {c : Component} (hc : c ∈ components) :
    Boxed (flowStmts components desc) (dotId c.name)
      (c.name.toList ++ '\n' :: descText c (desc c)) := by
  have hboxes : Dot.nodeAttrs (boxStmts components desc) (dotId c.name).toList =
      componentAttrs c (desc c) := by
    refine Dot.nodeAttrs_map (fun c => componentAttrs c (desc c)) ?_ hc
    have hmap : (components.map fun c => (dotId c.name).toList) =
        (components.map fun c => dotId c.name).map String.toList := by simp
    rw [hmap]
    exact h.distinct.map fun _ _ => String.toList_inj.1
  have hsockets : Dot.nodeAttrs socketStmts (dotId c.name).toList = [] :=
    Dot.nodeAttrs_eq_nil fun attrs hmem => by
      have hfixed := nodes_sockets _ (List.mem_filterMap.2 ⟨_, hmem, rfl⟩)
      obtain ⟨b, hb, heq⟩ := List.mem_map.1 hfixed
      exact h.apart c hc (List.mem_map.2 ⟨b, hb, String.toList_inj.1 heq⟩)
  obtain ⟨⟨label, hlabel, hshows⟩, -⟩ := shows_componentAttrs htext hc
  refine ⟨label, ?_, hshows⟩
  rw [nodeAttrs_flow, hboxes, hsockets, List.append_nil, hlabel]

/-- The boxes around the simulator are not those of components. -/
theorem Nameable.fixed (h : Nameable components) (desc : Component → List Char)
    {b : String × String} (hb : b ∈ fixedBoxes) :
    Boxed (flowStmts components desc) b.1 b.2.toList := by
  have hboxes : Dot.nodeAttrs (boxStmts components desc) b.1.toList = [] :=
    Dot.nodeAttrs_eq_nil fun attrs hmem => by
      obtain ⟨c, hc, hstmt⟩ := List.mem_map.1 hmem
      obtain ⟨htarget, -⟩ := Dot.Stmt.attach.inj hstmt
      have hname : dotId c.name = b.1 := String.toList_inj.1 (Dot.Target.node.inj htarget)
      exact h.apart c hc (hname ▸ List.mem_map_of_mem hb)
  obtain ⟨label, hlabel, hshows⟩ := (Option.any_eq_true _ _).1 (boxed_sockets b hb)
  refine ⟨label, ?_, of_decide_eq_true hshows⟩
  rw [nodeAttrs_flow, hboxes, List.nil_append, hlabel]

/-- No component is drawn as one of the boxes around the simulator. -/
theorem Nameable.not_mem_nodes (h : Nameable components) {b : String × String}
    (hb : b ∈ fixedBoxes) : b.1 ∉ nodes components := by
  intro hmem
  rcases Finset.mem_insert.1 hmem with hbridge | hmem
  · have hfixed : ∀ b ∈ fixedBoxes, b.1 ≠ dotId "UdpBridge" := by decide
    exact hfixed b hb hbridge
  · obtain ⟨c, hc, hname⟩ := List.mem_map.1 (List.mem_toFinset.1 hmem)
    exact h.apart c hc (hname ▸ List.mem_map_of_mem hb)

/-- Between a socket and the bridge there is one edge. -/
theorem Nameable.bridged (h : Nameable components) (desc : Component → List Char) :
    edgesBetween (flowStmts components desc) "TX" (dotId "UdpBridge") =
      [labelled "Inbound Traffic:\\n" (buildLabel (collectEdges components).inboundMsgNames)
        inboundAttrs] ∧
    edgesBetween (flowStmts components desc) "RX" (dotId "UdpBridge") =
      [labelled "Outbound Traffic:\\n" (buildLabel (collectEdges components).outboundMsgNames)
        outboundAttrs] := by
  have hsockets (src : String) : (Dot.edges socketStmts).filter
      (fun e => e.1 = (src.toList, (dotId "UdpBridge").toList)) = [] :=
    List.filter_eq_nil_iff.2 fun e he hkey => by
      have hdst : (dotId "UdpBridge").toList ∈ ["TX".toList, "RX".toList] := by
        simpa [of_decide_eq_true hkey] using (edges_sockets e he).1
      exact absurd hdst (by decide)
  have hdashed {src : String} (hsrc : src ∉ nodes components) :
      ((edgePairs components).map fun pair => ((pair.1.toList, pair.2.toList), labelled ""
        (buildLabel ((collectEdges components).edges pair)) dashedAttrs)).filter
          (fun e => e.1 = (src.toList, (dotId "UdpBridge").toList)) = [] :=
    List.filter_eq_nil_iff.2 fun e he hkey => by
      obtain ⟨pair, hpair, rfl⟩ := List.mem_map.1 he
      obtain ⟨hfrom, -⟩ := Prod.mk.inj (of_decide_eq_true hkey)
      exact hsrc (String.toList_inj.1 hfrom ▸ (mem_nodes_of_mem_edgePairs hpair).1)
  have htx := hdashed (h.not_mem_nodes (.head _))
  have hrx := hdashed (h.not_mem_nodes (.tail _ (.head _)))
  constructor
  · rw [edgesBetween, edges_flow]
    simp only [List.filter_append, hsockets, htx]
    rfl
  · rw [edgesBetween, edges_flow]
    simp only [List.filter_append, hsockets, hrx]
    rfl

/-- What the edges list. -/
theorem lists_dashed (components : List Component) (src dst : String) :
    Lists (labelled "" (buildLabel ((collectEdges components).edges (src, dst))) dashedAttrs) ""
      ((collectEdges components).edges (src, dst)) :=
  lists_labelled rfl .nil fun _ hn => (mem_edges_iff.1 hn).imp fun _ h => h.1

theorem lists_inbound (components : List Component) :
    Lists (labelled "Inbound Traffic:\\n" (buildLabel (collectEdges components).inboundMsgNames)
      inboundAttrs) "Inbound Traffic:\n" (collectEdges components).inboundMsgNames :=
  lists_labelled rfl (by decide) fun _ hn => (mem_inbound_iff.1 hn).imp fun _ h => h.1

theorem lists_outbound (components : List Component) :
    Lists (labelled "Outbound Traffic:\\n" (buildLabel (collectEdges components).outboundMsgNames)
      outboundAttrs) "Outbound Traffic:\n" (collectEdges components).outboundMsgNames :=
  lists_labelled rfl (by decide) fun _ hn => (mem_outbound_iff.1 hn).imp fun _ h => h.1

/-- The attributes of an edge can be shown if what is around the names can. -/
theorem readable_labelled {before : String} {names : Finset String} {attrs : Dot.Attrs}
    (hattrs : attrs.all (fun a => a.2.readable) = true)
    (hbefore : (Dot.Value.plain before.toList).readable = true)
    (hnames : ∀ n ∈ names, ∃ id : MsgId, n = id.name) :
    (labelled before (buildLabel names) attrs).all (fun a => a.2.readable) = true := by
  have hreads : Dot.plainLabel.Reads false before.toList false
      (Dot.plainLabel.run false before.toList).2 :=
    Prod.ext (of_decide_eq_true hbefore) rfl
  rw [labelled, List.all_cons, (shows_edgeLabel hreads hnames).readable, hattrs, Bool.and_self]

/-- Every label of the file can be shown. -/
theorem readable_flow {desc : Component → List Char} (h : Legible components desc)
    {stmt : Dot.Stmt} (hstmt : stmt ∈ flowStmts components desc) : stmt.readable = true := by
  simp only [flowStmts, boxStmts, dashedStmts, List.mem_append, List.mem_map,
    List.mem_singleton] at hstmt
  rcases hstmt with
    (((((hheader | ⟨c, hc, rfl⟩) | hsocket) | rfl) | ⟨pair, -, rfl⟩) | rfl) | rfl
  · exact List.all_eq_true.1 header_facts.2.2.2.2.2 stmt hheader
  · exact (shows_componentAttrs h hc).2
  · exact List.all_eq_true.1 sockets_facts.2.2.1 stmt hsocket
  · exact readable_labelled (by decide) (by decide) fun _ hn =>
      (mem_inbound_iff.1 hn).imp fun _ h => h.1
  · exact readable_labelled (by decide) rfl fun _ hn => (mem_edges_iff.1 hn).imp fun _ h => h.1
  · exact readable_labelled (by decide) (by decide) fun _ hn =>
      (mem_outbound_iff.1 hn).imp fun _ h => h.1
  · decide

/-- **The file shows the diagram**, whatever the descriptions contain: it is a well-formed digraph
    whose labels can be shown, the box of each component shows its name and the first sentence of
    its description, there is one dashed edge for each pair of nodes with messages drawn between
    them, which lists their names, and one edge between each socket and the bridge, which lists
    those of the traffic. -/
theorem emitGraphvizFlowDot_shows (h : Nameable components) {desc : Component → List Char}
    (htext : Legible components desc) :
    ∃ stmts, Dot.read (emitGraphvizFlowDot components desc) = some stmts ∧
      ShowsFlow components desc stmts := by
  refine ⟨flowStmts components desc,
    Dot.read_eq (reads_flow h desc) (depthAfter_flow components desc), ?_⟩
  obtain ⟨hin, hout⟩ := h.bridged desc
  refine ⟨fun stmt => readable_flow htext, fun c => h.boxed htext, fun b => h.fixed desc,
    fun src dst hdrawn => ⟨_, (dashed_flow components desc src dst).trans (if_neg hdrawn),
      lists_dashed components src dst⟩, fun src dst hnone =>
      (dashed_flow components desc src dst).trans (if_pos hnone),
    ⟨_, hin, lists_inbound components⟩, ⟨_, hout, lists_outbound components⟩⟩

end

theorem appComponents_shown : ∃ stmts,
    Dot.read (emitGraphvizFlowDot appComponents fun _ => "\"Fast\" & <far>. More.".toList) =
        some stmts ∧
      ShowsFlow appComponents (fun _ => "\"Fast\" & <far>. More.".toList) stmts := by
  have hnames : ∀ c ∈ appComponents, c.name.toList.all Dot.isVisible = true := by decide +kernel
  have hdesc : "\"Fast\" & <far>. More.".toList.all
      (fun ch => isSeparator ch || ' ' ≤ ch && ch ≤ '~') = true := by decide
  refine emitGraphvizFlowDot_shows ⟨by decide +kernel, by decide +kernel, by decide +kernel⟩
    ⟨fun c hc => List.all_eq_true.1 (hnames c hc), fun c _ ch hch => ?_⟩
  simpa using List.all_eq_true.1 hdesc ch hch

end ReflectPytest

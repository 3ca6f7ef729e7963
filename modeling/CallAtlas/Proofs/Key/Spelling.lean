import CallAtlas.Proofs.Json.Accepted
import CallAtlas.Proofs.Json.Written
import CallAtlas.Proofs.Key.Text
import CallAtlas.Snapshot.Wire

/-!
# The spellings of a key

Texts that name one key write the same digits, up to their case and to a plus sign for
a zero at the head. An edge that is read and written again has each key in its sixteen
digits of lower case, and nothing else in it is changed.
-/

namespace CallAtlas

open Json (Node Value Decoder)

/-! ## Keys in a tree -/

namespace Json

mutual

/-- The tree with each text in it spelled as the key that it names. -/
def Node.respelled : Node → Node
  | .text (some content) => .text (some (Key.spelling content))
  | .array items ending => .array (respelledItems items) ending
  | node => node
termination_by structural node => node

def respelledItems : List Node → List Node
  | [] => []
  | node :: rest => node.respelled :: respelledItems rest
termination_by structural items => items

end

end Json

section

variable {room : Nat} {node : Node}

theorem Key.node_eq_respelled {k : Key} (h : Key.decode room node = .ok k) :
    k.toValue.node = node.respelled := by
  obtain ⟨content, rfl, hcontent⟩ := Decoder.ofText_eq_ok h
  have hparse : Key.parse content = .ok k := by
    cases hparse : Key.parse content with
    | error why =>
        rw [hparse] at hcontent
        cases hcontent
    | ok l =>
        rw [hparse] at hcontent
        rw [Option.some.inj hcontent]
  show Node.text (some k.text) = .text (some (Key.spelling content))
  rw [(Key.parse_eq_ok_iff.mp hparse).2]

theorem nodes_eq_respelledItems {items : List Node} {keys : List Key}
    (h : List.Forall₂ (fun item key => Key.decode room item = .ok key) items keys) :
    Value.nodes (keys.map Key.toValue) = Json.respelledItems items := by
  induction h with
  | nil => rfl
  | cons hitem _ ih =>
      rw [List.map_cons, Value.nodes, Json.respelledItems, Key.node_eq_respelled hitem, ih]

theorem Callee.node_eq_respelled {c : Callee} (h : Callee.decode room node = .ok c) :
    c.toValue.node = node.respelled := by
  rcases Decoder.either_eq_ok (Decoder.whole_eq_ok h) with hsingle | hcandidates
  · obtain ⟨key, hkey, rfl⟩ := Decoder.map_eq_ok hsingle
    exact Key.node_eq_respelled hkey
  · obtain ⟨keys, hkeys, rfl⟩ := Decoder.map_eq_ok hcandidates
    obtain ⟨inner, items, rfl, hitems⟩ := Decoder.list_eq_ok hkeys
    show Node.array (Value.nodes (keys.map Key.toValue)) .closed =
      .array (Json.respelledItems items) .closed
    rw [nodes_eq_respelledItems hitems]

theorem Edge.node_eq_respelled {e : Edge} (h : Edge.decode room node = .ok e) :
    e.toValue.node = node.respelled := by
  obtain ⟨inside, items, rfl, hrow⟩ := Decoder.tuple_eq_ok h
  obtain ⟨first, items, callee, rfl, hcallee, hrow⟩ := Decoder.Row.bind_next_eq_ok hrow
  obtain ⟨second, items, line, rfl, hline, hrow⟩ := Decoder.Row.bind_next_eq_ok hrow
  obtain ⟨third, items, col, rfl, hcol, hrow⟩ := Decoder.Row.bind_next_eq_ok hrow
  cases hrow
  rw [Decoder.word_eq_ok hline, Decoder.word_eq_ok hcol]
  show Node.array [callee.toValue.node, .natural line.toNat, .natural col.toNat] .closed =
    .array [first.respelled, .natural line.toNat, .natural col.toNat] .closed
  rw [Callee.node_eq_respelled hcallee]

end

/-! ## Texts and keys -/

namespace Key

theorem exists_parse_eq_ok_iff {text : String} : (∃ k, parse text = .ok k) ↔ Names text := by
  constructor
  · rintro ⟨k, h⟩
    exact names_of_parse h
  · intro h
    obtain ⟨n, hn⟩ := Option.isSome_iff_exists.mp (isSome_hexFrom?_of_names h)
    exact ⟨_, parse_of_names h hn⟩

theorem parse_eq_ok_iff_of_parse {text other : String} {k : Key} (h : parse text = .ok k) :
    parse other = .ok k ↔ Names other ∧ spelling other = spelling text := by
  rw [parse_eq_ok_iff, (parse_eq_ok_iff.mp h).2, eq_comm (a := spelling text)]

/-- Without a sign, a text names a key if it is sixteen digits of either case. -/
theorem names_iff_of_head?_ne {text : String} (h : text.toList.head? ≠ some '+') :
    Names text ↔ text.length = 16 ∧ ∀ c ∈ text.toList, Text.IsHexDigit c := by
  rw [Names, digits, zeroPlus_of_head?_ne h, String.length_toList]

theorem spelling_of_head?_ne {text : String} (h : text.toList.head? ≠ some '+') :
    spelling text = text.toLower := by
  rw [spelling, digits, zeroPlus_of_head?_ne h, ← String.toList_map, String.ofList_toList]
  rfl

theorem not_isHexDigit_plus : ¬ Text.IsHexDigit '+' := by
  decide

theorem exists_not_isHexDigit {text : String} (h : text.toList.head? = some '+') :
    ¬ ∀ c ∈ text.toList, Text.IsHexDigit c :=
  fun hall => not_isHexDigit_plus (hall '+' (List.mem_of_head? h))

/-- Being accepted for sixteen digits alone, and standing for them in lower case, fails for
the texts that are a plus sign and fifteen digits and for no other. -/
theorem parse_exact_iff (text : String) :
    (((∃ k, parse text = .ok k) ↔ text.length = 16 ∧ ∀ c ∈ text.toList, Text.IsHexDigit c) ∧
        ∀ k, parse text = .ok k → k.text = text.toLower) ↔
      ¬ (Names text ∧ text.toList.head? = some '+') := by
  rw [exists_parse_eq_ok_iff]
  constructor
  · rintro ⟨hexact, -⟩ ⟨hnames, hsign⟩
    exact exists_not_isHexDigit hsign (hexact.mp hnames).2
  · intro hunsigned
    by_cases hsign : text.toList.head? = some '+'
    · have hnot : ¬ Names text := fun hnames => hunsigned ⟨hnames, hsign⟩
      refine ⟨iff_of_false hnot fun h => exists_not_isHexDigit hsign h.2, fun k hk => ?_⟩
      exact absurd (names_of_parse hk) hnot
    · refine ⟨names_iff_of_head?_ne hsign, fun k hk => ?_⟩
      rw [(parse_eq_ok_iff.mp hk).2, spelling_of_head?_ne hsign]

/-- The text of a key is sixteen digits in lower case and names the key. A text names a
key exactly if it writes sixteen digits, which in lower case are then the text of the key;
these are the characters of the text, but for a plus sign that stands for a zero at its
head. Texts name one key if their digits are the same in lower case, and an edge that is
read is written with these digits. -/
theorem texts_up_to_case_and_sign (k : Key) (text : String) :
    (k.text.length = 16 ∧ (∀ c ∈ k.text.toList, Text.IsLowerHexDigit c) ∧
      parse k.text = .ok k) ∧
    ((∃ l, parse text = .ok l) ↔ Names text) ∧
    ((((∃ l, parse text = .ok l) ↔ text.length = 16 ∧ ∀ c ∈ text.toList, Text.IsHexDigit c) ∧
        ∀ l, parse text = .ok l → l.text = text.toLower) ↔
      ¬ (Names text ∧ text.toList.head? = some '+')) ∧
    (∀ l, parse text = .ok l → l.text = spelling text ∧
      ∀ other, parse other = .ok l ↔ Names other ∧ spelling other = spelling text) ∧
    ∀ room node e, Edge.decode room node = .ok e → e.toValue.node = node.respelled := by
  refine ⟨⟨length_text k, fun c hc => isLowerHexDigit_of_mem_text hc, parse_text k⟩,
    exists_parse_eq_ok_iff, parse_exact_iff text, fun l h => ?_,
    fun room node e h => Edge.node_eq_respelled h⟩
  exact ⟨(parse_eq_ok_iff.mp h).2, fun other => parse_eq_ok_iff_of_parse h⟩

def sampleNode : Node :=
  .array [.array [.text (some "FFFFFFFFFFFFFFFF"), .text (some "+00000000000000A")] .closed,
    .natural 2, .natural 4] .closed

theorem texts_up_to_case_and_sign_sample :
    Edge.decode 127 sampleNode = .ok ⟨.candidates [⟨0xFFFFFFFFFFFFFFFF⟩, ⟨10⟩], 2, 4⟩ ∧
      (⟨.candidates [⟨0xFFFFFFFFFFFFFFFF⟩, ⟨10⟩], 2, 4⟩ : Edge).toValue.node =
        sampleNode.respelled ∧
      parse "FFFFFFFFFFFFFFFF" = .ok ⟨0xFFFFFFFFFFFFFFFF⟩ ∧
      ¬ (Names "FFFFFFFFFFFFFFFF" ∧ "FFFFFFFFFFFFFFFF".toList.head? = some '+') ∧
      (⟨0xFFFFFFFFFFFFFFFF⟩ : Key).text = "FFFFFFFFFFFFFFFF".toLower := by
  have hdecode : Edge.decode 127 sampleNode =
      .ok ⟨.candidates [⟨0xFFFFFFFFFFFFFFFF⟩, ⟨10⟩], 2, 4⟩ := by
    rfl
  have hparse : parse "FFFFFFFFFFFFFFFF" = .ok ⟨0xFFFFFFFFFFFFFFFF⟩ := by decide +kernel
  have hunsigned : ¬ (Names "FFFFFFFFFFFFFFFF" ∧ "FFFFFFFFFFFFFFFF".toList.head? = some '+') :=
    fun h => absurd h.2 (by decide)
  obtain ⟨-, -, hexact, -, hedges⟩ :=
    texts_up_to_case_and_sign ⟨0xFFFFFFFFFFFFFFFF⟩ "FFFFFFFFFFFFFFFF"
  exact ⟨hdecode, hedges _ _ _ hdecode, hparse, hunsigned, (hexact.mpr hunsigned).2 _ hparse⟩

def signedValue : Value :=
  .array [.text "+123456789abcdef", .natural 1, .natural 2]

theorem fits_signedValue : signedValue.Fits Json.depthLimit := by
  refine .array fun value hvalue => ?_
  simp only [List.mem_cons, List.not_mem_nil, or_false] at hvalue
  rcases hvalue with rfl | rfl | rfl
  · exact .text
  · exact .natural (by decide)
  · exact .natural (by decide)

/-- A sign and fifteen digits are read as a key, and in an edge they are written as other
characters. -/
theorem signed_text_names_key :
    parse "+123456789abcdef" = .ok ⟨0x0123456789abcdef⟩ ∧
      ¬ (∀ c ∈ "+123456789abcdef".toList, Text.IsHexDigit c) ∧
      (⟨0x0123456789abcdef⟩ : Key).text = "0123456789abcdef" ∧
      "0123456789abcdef" ≠ "+123456789abcdef".toLower ∧
      Json.read Edge.decode "[\"+123456789abcdef\",1,2]" =
        .ok ⟨.single ⟨0x0123456789abcdef⟩, 1, 2⟩ ∧
      (⟨.single ⟨0x0123456789abcdef⟩, 1, 2⟩ : Edge).toValue.render =
        "[\"0123456789abcdef\",1,2]" := by
  have hrender : "[\"+123456789abcdef\",1,2]" = signedValue.render := by decide +kernel
  have hsign : ¬ ∀ c ∈ "+123456789abcdef".toList, Text.IsHexDigit c := by
    intro h
    exact absurd (h '+' (by decide +kernel)) (by decide)
  refine ⟨by decide +kernel, hsign, by decide +kernel, by decide +kernel, ?_, by decide +kernel⟩
  rw [hrender]
  exact Json.read_render fits_signedValue (by rfl)

end Key

end CallAtlas

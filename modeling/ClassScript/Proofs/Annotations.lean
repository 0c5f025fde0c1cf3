import ClassScript.Proofs.LexemeCuts
import ClassScript.Proofs.Reading

/-!
Annotations in programs. Main statement: the text of every annotation whose names are identifiers is
read back as that annotation.
-/

set_option autoImplicit false

namespace ClassScript

open Lexeme Token Grammar Phrase

/-- All names in the annotation are identifiers, and so no keywords. -/
inductive TypeName.Named : TypeName → Prop where
  | intro {name : String} {arguments : List TypeName} (spells : Spells .identifier name.toList)
    (inner : ∀ argument ∈ arguments, argument.Named) : Named ⟨name, arguments⟩

private theorem leads_word {first : Char} {tail rest : List Char}
    (starts : isWordStart first = true) (continues : ∀ c ∈ tail, isWordPart c = true)
    (ends : ∀ c ∈ rest.head?, isWordPart c = false) :
    Leads (first :: tail ++ rest)
      (.token (wordKind (String.ofList (first :: tail))) (first :: tail)) := by
  refine ⟨first, tail ++ rest, rfl, ?_⟩
  have stops : rest.takeWhile isWordPart = [] := by
    cases rest with
    | nil => rfl
    | cons c more => simp [ends c rfl]
  rw [front_of_isWordStart starts, wordFront, List.takeWhile_append_of_pos continues, stops,
    List.append_nil]

private theorem wordKind_of_spells {raw : List Char} (spells : Spells .identifier raw) :
    wordKind (String.ofList raw) = .identifier := by
  cases spells with
  | identifier _ _ free =>
    unfold wordKind
    split
    next which known => exact absurd (mem_spellings_of_lookup known) (free which)
    · rfl

private theorem leads_mark {c : Char} {rest : List Char} {which : Terminal}
    (mark : singleMark? c = some which) (bare : c ≠ '/')
    (alone : ∀ d ∈ rest.head?, doubleMark? c d = none) :
    Leads (c :: rest) (.token (.terminal which) [c]) := by
  refine ⟨c, rest, rfl, ?_⟩
  rw [front_of_isMark (isMark_of_singleMark? mark) (by simp [opensComment_cons, bare]), markFront]
  cases rest with
  | nil => simp [mark]
  | cons d more => simp [alone d rfl, mark]

def Scans (raw rest : List Char) (expected : List Token → Prop) : Prop :=
  ∀ position, ∃ tokens position', Cursor.items ⟨raw ++ rest, 0, position⟩ =
    tokens.map .ok ++ Cursor.items ⟨rest, 0, position'⟩ ∧ expected tokens

namespace Scans

variable {raw raw' rest : List Char} {expected expected' : List Token → Prop}

private theorem token {kind : Token.Kind} (leads : Leads (raw ++ rest) (.token kind raw)) :
    Scans raw rest fun tokens =>
      ∃ token : Token, tokens = [token] ∧ token.kind = kind ∧ token.lexeme = String.ofList raw := by
  intro position
  have items := Cursor.items_of_item (Cursor.step_of_token position leads)
  exact ⟨[_], _, items, _, rfl, rfl, rfl⟩

private theorem space : Scans [' '] rest fun tokens => tokens = [] :=
  fun position => ⟨[], _,
    Cursor.items_of_blank (Cursor.step_of_blank position ⟨' ', rest, rfl, rfl⟩), rfl⟩

private theorem append (first : Scans raw (raw' ++ rest) expected)
    (second : Scans raw' rest expected') : Scans (raw ++ raw') rest fun tokens =>
      ∃ before after, tokens = before ++ after ∧ expected before ∧ expected' after := by
  intro position
  obtain ⟨before, middle, items, holds⟩ := first position
  obtain ⟨after, last, items', holds'⟩ := second middle
  refine ⟨before ++ after, last, ?_, before, after, rfl, holds, holds'⟩
  rw [List.append_assoc, items, items', List.map_append, List.append_assoc]

private theorem mono (scans : Scans raw rest expected)
    (weaker : ∀ tokens, expected tokens → expected' tokens) : Scans raw rest expected' := by
  intro position
  obtain ⟨tokens, position', items, holds⟩ := scans position
  exact ⟨tokens, position', items, weaker tokens holds⟩

private theorem scan_eq {text : String} (scans : Scans text.toList [] expected) :
    ∃ tokens mark, scan text = .ok (tokens ++ [mark]) ∧ mark.isFinish ∧ expected tokens := by
  obtain ⟨tokens, position, items, holds⟩ := scans .start
  have ends : (Cursor.mk [] 0 position).items = [.ok ⟨.finish, "", position⟩] :=
    Cursor.items_of_finish rfl
  refine ⟨tokens, ⟨.finish, "", position⟩, ?_, rfl, holds⟩
  rw [ends, List.append_nil] at items
  rw [scan, scanAll, Cursor.start, items, ← collect_map_ok, List.map_append]
  rfl

end Scans

/-- The text goes on with a mark that stands after an annotation. -/
def Resumes (rest : List Char) : Prop :=
  ∃ c ∈ [',', '>', ';'], rest.head? = some c

private theorem Resumes.ends {rest : List Char} (resumes : Resumes rest) :
    ∀ c ∈ rest.head?, isWordPart c = false ∧ doubleMark? '>' c = none := by
  obtain ⟨c, isMark, same⟩ := resumes
  rw [same]
  rintro d ⟨⟩
  simp only [List.mem_cons, List.not_mem_nil, or_false] at isMark
  rcases isMark with rfl | rfl | rfl <;> exact ⟨rfl, rfl⟩

private theorem scans_mark {c : Char} {rest : List Char} (which : Terminal)
    (mark : singleMark? c = some which) (bare : c ≠ '/')
    (alone : ∀ d ∈ rest.head?, doubleMark? c d = none) :
    Scans [c] rest fun tokens => ∃ token : Token, tokens = [token] ∧ token.isTerminal which := by
  refine (Scans.token (leads_mark mark bare alone)).mono ?_
  rintro _ ⟨token, rfl, isMark, -⟩
  exact ⟨token, rfl, by simp [Token.isTerminal, isMark]⟩

private theorem scans_identifier {name : String} {rest : List Char}
    (spells : Spells .identifier name.toList) (ends : ∀ c ∈ rest.head?, isWordPart c = false) :
    Scans name.toList rest fun tokens =>
      ∃ token : Token, tokens = [token] ∧ token.isIdentifier ∧ token.lexeme = name := by
  have leads : Leads (name.toList ++ rest) (.token .identifier name.toList) := by
    rw [← wordKind_of_spells spells]
    generalize name.toList = raw at spells
    cases spells with
    | identifier starts continues _ => exact leads_word starts continues ends
  refine (Scans.token leads).mono ?_
  rintro _ ⟨token, rfl, isName, lexeme⟩
  exact ⟨token, rfl, by simp [Token.isIdentifier, isName], by rw [lexeme, String.ofList_toList]⟩

private theorem scans_var (rest : List Char) : Scans ['v', 'a', 'r'] (' ' :: rest) fun tokens =>
    ∃ token : Token, tokens = [token] ∧ token.isTerminal .varWord := by
  have kind : wordKind (String.ofList ['v', 'a', 'r']) = .terminal .varWord := by
    have listed : keywords.lookup (String.ofList ['v', 'a', 'r']) = some .varWord := by decide
    simp only [wordKind, listed]
  refine (Scans.token (kind ▸ leads_word rfl (List.all_eq_true.mp rfl) (by simp [isWordPart,
    isWordStart, isDigit]))).mono ?_
  rintro _ ⟨token, rfl, isWord, -⟩
  exact ⟨token, rfl, by simp [Token.isTerminal, isWord]⟩

private theorem TypeName.Named.begins {found : TypeName} (named : found.Named) :
    ∃ c, found.text.toList.head? = some c ∧ doubleMark? '<' c = none := by
  obtain @⟨name, arguments, spells, -⟩ := named
  generalize spelling : name.toList = raw at spells
  cases spells with
  | @identifier c more starts _ _ =>
    refine ⟨c, by cases arguments <;> simp [TypeName.text, TypeName.texts, spelling], ?_⟩
    unfold doubleMark?
    split <;> simp_all [isWordStart]

-- By recursion on the annotation, with any text after it.
mutual

private theorem scans_type : ∀ found : TypeName, found.Named → ∀ rest : List Char, Resumes rest →
    Scans found.text.toList rest fun tokens => ∀ after, TypePhrase (tokens ++ after) after found
  | ⟨name, []⟩, .intro spells _, rest, resumes => by
    refine (scans_identifier spells fun c next => (resumes.ends c next).1).mono ?_
    rintro _ ⟨token, rfl, isName, rfl⟩ after
    exact .plain isName
  | ⟨name, first :: others⟩, .intro spells inner, rest, resumes => by
    have closing := scans_mark .greater rfl (by decide) fun c next => (resumes.ends c next).2
    have arguments := (scans_types (first :: others) (by simp) inner rest).append closing
    have starts : ∀ c ∈ ((", ".intercalate (TypeName.texts (first :: others))).toList ++ ['>'] ++
        rest).head?, doubleMark? '<' c = none := by
      obtain ⟨c, same, unmarked⟩ := (inner first List.mem_cons_self).begins
      cases others <;> simp [TypeName.texts, same, unmarked]
    have opening := (scans_mark .less rfl (by decide) starts).append arguments
    have whole := (scans_identifier spells fun c next => by cases next; rfl).append opening
    have same : (TypeName.text ⟨name, first :: others⟩).toList = name.toList ++ (['<'] ++
        ((", ".intercalate (TypeName.texts (first :: others))).toList ++ ['>'])) := by
      simp [TypeName.text, TypeName.texts]
    rw [same]
    refine whole.mono ?_
    rintro _ ⟨_, _, rfl, ⟨token, rfl, isName, rfl⟩, _, _, rfl, ⟨opening, rfl, opens⟩, areTypes, _,
      rfl, derives, closing, rfl, closes⟩ after
    simp only [List.append_assoc, List.cons_append, List.nil_append]
    exact .generic isName opens (derives _) closes

private theorem scans_types : ∀ found : List TypeName, found ≠ [] → (∀ one ∈ found, one.Named) →
    ∀ rest : List Char, Scans (", ".intercalate (TypeName.texts found)).toList ('>' :: rest)
      fun tokens => ∀ after, TypePhrases (tokens ++ after) after found
  | [], lacking, _, _ => absurd rfl lacking
  | [only], _, named, rest => by
    have alone := scans_type only (named _ List.mem_cons_self) ('>' :: rest)
      ⟨'>', by simp, rfl⟩
    exact alone.mono fun tokens isType after => .last (isType after)
  | first :: second :: others, _, named, rest => by
    have next := scans_types (second :: others) (by simp) (fun one member =>
      named one (List.mem_cons_of_mem _ member)) rest
    have spaced := Scans.space.append next
    have listed := (scans_mark (c := ',') .comma rfl (by decide) fun _ _ => rfl).append spaced
    have all := (scans_type first (named _ List.mem_cons_self) _ ⟨',', by simp, rfl⟩).append listed
    have same : (", ".intercalate (TypeName.texts (first :: second :: others))).toList =
        first.text.toList ++ ([','] ++ ([' '] ++
          (", ".intercalate (TypeName.texts (second :: others))).toList)) := by
      simp [TypeName.texts]
    rw [same]
    refine all.mono ?_
    rintro _ ⟨_, _, rfl, isFirst, _, _, rfl, ⟨comma, rfl, isComma⟩, _, _, rfl, rfl, areNext⟩ after
    simp only [List.append_assoc, List.cons_append, List.nil_append]
    exact .more (isFirst _) isComma (areNext after)

end

private theorem scans_declaration {found : TypeName} (named : found.Named) :
    Scans ("var x: " ++ found.text ++ ";").toList [] fun tokens =>
      ∃ word name colon mark types, tokens = word :: name :: colon :: types ++ [mark] ∧
        word.isTerminal .varWord ∧ name.isIdentifier ∧ name.lexeme = "x" ∧
        colon.isTerminal .colon ∧ (∀ after, TypePhrase (types ++ after) after found) ∧
        mark.isTerminal .semicolon := by
  have isName : Spells .identifier "x".toList :=
    .identifier rfl (by simp) (by rintro (_ | _) <;> decide)
  have closed : Scans [';'] [] _ := scans_mark .semicolon rfl (by decide) fun _ _ => rfl
  have typed := (scans_type found named _ ⟨';', by simp, rfl⟩).append closed
  have hinted := (scans_mark (c := ':') .colon rfl (by decide) fun _ _ => rfl).append
    (Scans.space.append typed)
  have named := (scans_identifier isName fun c next => by cases next; rfl).append hinted
  have whole := (scans_var _).append (Scans.space.append named)
  have spelled : ("var x: " ++ found.text ++ ";").toList = ['v', 'a', 'r'] ++ ([' '] ++
      ("x".toList ++ ([':'] ++ ([' '] ++ (found.text.toList ++ [';']))))) := by
    simp
  rw [spelled]
  refine whole.mono ?_
  rintro _ ⟨_, _, rfl, ⟨word, rfl, isWord⟩, _, _, rfl, rfl, _, _, rfl, ⟨name, rfl, isName, same⟩,
    _, _, rfl, ⟨colon, rfl, isColon⟩, _, _, rfl, rfl, types, _, rfl, isType, mark, rfl, isMark⟩
  exact ⟨word, name, colon, mark, types, rfl, isWord, isName, same, isColon, isType, isMark⟩

/-- The text of an annotation whose names are identifiers is read back as that annotation, in a
declaration of a variable. -/
theorem annotations_are_read_back (found : TypeName) (named : found.Named) (first : RefId) :
    ∃ tokens, scan ("var x: " ++ found.text ++ ";") = .ok tokens ∧
      ∃ name last, parseProgram tokens first = .ok [.var name (some found) none] last ∧
        name.name = "x" := by
  obtain ⟨_, finish, scanned, isFinish, word, name, colon, mark, types, rfl, isWord, isName, same,
    isColon, isType, isMark⟩ := (scans_declaration named).scan_eq
  have declared : Declaration ⟨word :: name :: colon :: (types ++ mark :: [finish]), first⟩
      ⟨[finish], first⟩ (.var ⟨name.lexeme, name.position⟩ (some found) none) :=
    .var isWord (.declared isName (.some isColon (isType _)) .none isMark)
  have program := Declarations.more declared (.none (by simpa [ended] using isFinish))
  obtain ⟨last, read, -⟩ := (parseProgram_iff (scan_marked scanned)).mpr
    ⟨by simpa using program, finish, by simp, isFinish⟩
  exact ⟨_, scanned, _, last, read, same⟩

def nestedAnnotation : TypeName :=
  ⟨"Map", [⟨"Key", []⟩, ⟨"Map", [⟨"Key", []⟩, ⟨"Key", []⟩]⟩]⟩

/-- Two closing brackets in a row are two tokens. -/
theorem nested_annotation_is_read_back :
    nestedAnnotation.Named ∧ ∃ tokens, scan "var x: Map<Key, Map<Key, Key>>;" = .ok tokens ∧
      ∃ name last, parseProgram tokens 0 = .ok [.var name (some nestedAnnotation) none] last ∧
        name.name = "x" := by
  have isMap : Spells .identifier "Map".toList :=
    .identifier rfl (List.all_eq_true.mp rfl) (by rintro (_ | _) <;> decide)
  have isKey : Spells .identifier "Key".toList :=
    .identifier rfl (List.all_eq_true.mp rfl) (by rintro (_ | _) <;> decide)
  have key : TypeName.Named ⟨"Key", []⟩ := .intro isKey (by simp)
  have named : nestedAnnotation.Named :=
    .intro isMap (by simpa using ⟨key, .intro isMap (by simpa using key)⟩)
  exact ⟨named, annotations_are_read_back nestedAnnotation named 0⟩

end ClassScript

import ClassScript.Proofs.Fronts

/-!
The lexemes of the language and the tokens that they spell, without regard to how a text is read.
-/

set_option autoImplicit false

namespace ClassScript

/-- The ways to write a token with a fixed meaning. -/
def Terminal.spellings : Terminal → List String
  | leftParen => ["("]
  | rightParen => [")"]
  | leftBrace => ["\x7b"]
  | rightBrace => ["\x7d"]
  | leftBracket => ["["]
  | rightBracket => ["]"]
  | comma => [","]
  | dot => ["."]
  | semicolon => [";"]
  | colon => [":"]
  | minus => ["-"]
  | plus => ["+"]
  | slash => ["/"]
  | star => ["*"]
  | percent => ["%"]
  | arrow => ["->"]
  | bang => ["!"]
  | bangEqual => ["!="]
  | equal => ["="]
  | equalEqual => ["=="]
  | greater => [">"]
  | greaterEqual => [">="]
  | less => ["<"]
  | lessEqual => ["<="]
  | plusEqual => ["+="]
  | minusEqual => ["-="]
  | starEqual => ["*="]
  | slashEqual => ["/="]
  | andWord => ["and", "&&"]
  | breakWord => ["break"]
  | classWord => ["class"]
  | continueWord => ["continue"]
  | elseWord => ["else"]
  | extendsWord => ["extends"]
  | falseWord => ["false"]
  | fnWord => ["fn"]
  | forWord => ["for"]
  | ifWord => ["if"]
  | nilWord => ["nil"]
  | orWord => ["or", "||"]
  | overrideWord => ["override"]
  | printWord => ["print"]
  | privateWord => ["private"]
  | protectedWord => ["protected"]
  | publicWord => ["public"]
  | returnWord => ["return"]
  | superWord => ["super"]
  | thisWord => ["this"]
  | trueWord => ["true"]
  | varWord => ["var", "let"]
  | virtualWord => ["virtual"]
  | whileWord => ["while"]

namespace Lexeme

/-- The characters that may stand after a backslash, each with the one it stands for. -/
def escapes : List (Char × Char) :=
  [('n', '\n'), ('t', '\t'), ('r', '\r'), ('0', '\x00'), ('\\', '\\'), ('"', '"')]

/-- The text between the quotes of a string and the characters that it stands for. -/
inductive Quoted : List Char → List Char → Prop where
  | nil : Quoted [] []
  | plain {c : Char} {raw value : List Char} (unquoted : c ≠ '"') (unescaped : c ≠ '\\')
    (rest : Quoted raw value) : Quoted (c :: raw) (c :: value)
  | escape {c decoded : Char} {raw value : List Char} (known : (c, decoded) ∈ escapes)
    (rest : Quoted raw value) : Quoted ('\\' :: c :: raw) (decoded :: value)

/-- The lexemes of the language, each with the token that it spells. -/
inductive Spells : Token.Kind → List Char → Prop where
  | terminal {which : Terminal} {spelling : String} (listed : spelling ∈ which.spellings) :
    Spells (.terminal which) spelling.toList
  | identifier {first : Char} {rest : List Char} (starts : isWordStart first = true)
    (continues : ∀ c ∈ rest, isWordPart c = true)
    (free : ∀ which : Terminal, String.ofList (first :: rest) ∉ which.spellings) :
    Spells .identifier (first :: rest)
  | whole {digits : List Char} (some : digits ≠ []) (digital : ∀ c ∈ digits, isDigit c = true) :
    Spells (.number (Number.ofDigits digits [])) digits
  | fraction {digits more : List Char} (some : digits ≠ [])
    (digital : ∀ c ∈ digits, isDigit c = true) (some' : more ≠ [])
    (digital' : ∀ c ∈ more, isDigit c = true) :
    Spells (.number (Number.ofDigits digits more)) (digits ++ '.' :: more)
  | string {raw value : List Char} (quoted : Quoted raw value) :
    Spells (.string (String.ofList value)) ('"' :: raw ++ ['"'])

variable {c d : Char} {which : Terminal} {spelling : String}

theorem toNat_of_isDigit (digit : isDigit c = true) : 48 ≤ c.toNat ∧ c.toNat ≤ 57 := by
  simp only [isDigit, Bool.and_eq_true, decide_eq_true_eq, Char.le_def, UInt32.le_iff_toNat_le]
    at digit
  exact digit

theorem toNat_of_isWordStart (starts : isWordStart c = true) :
    65 ≤ c.toNat ∧ c.toNat ≤ 90 ∨ c.toNat = 95 ∨ 97 ≤ c.toNat ∧ c.toNat ≤ 122 := by
  simp only [isWordStart, Bool.or_eq_true, Bool.and_eq_true, decide_eq_true_eq, beq_iff_eq,
    Char.le_def, UInt32.le_iff_toNat_le] at starts
  rcases starts with (small | capital) | rfl
  · exact .inr (.inr small)
  · exact .inl capital
  · exact .inr (.inl rfl)

def IsMark (c : Char) : Prop :=
  isSpace c = false ∧ isDigit c = false ∧ isWordStart c = false ∧ c ≠ '"'

theorem isMark_of_singleMark? (found : singleMark? c = some which) : IsMark c := by
  unfold singleMark? at found
  split at found <;> first | exact ⟨rfl, rfl, rfl, by decide⟩ | cases found

theorem isMark_of_doubleMark? (found : doubleMark? c d = some which) : IsMark c := by
  unfold doubleMark? at found
  split at found <;> first | exact ⟨rfl, rfl, rfl, by decide⟩ | cases found

theorem isSpace_eq_false_of_toNat (high : 33 ≤ c.toNat) : isSpace c = false := by
  rw [Bool.eq_false_iff]
  intro space
  simp only [isSpace, Bool.or_eq_true, beq_iff_eq] at space
  rcases space with ((rfl | rfl) | rfl) | rfl <;> exact absurd high (by decide)

def IsKeyword (spelling : String) (which : Terminal) : Prop :=
  keywords.lookup spelling = some which ∧ ∃ first rest, spelling.toList = first :: rest ∧
    isWordStart first = true ∧ ∀ c ∈ rest, isWordPart c = true

private theorem terminal_cases (listed : spelling ∈ which.spellings) :
    IsKeyword spelling which ∨
      (∃ c, spelling.toList = [c] ∧ singleMark? c = some which) ∨
      ∃ c d, spelling.toList = [c, d] ∧ doubleMark? c d = some which := by
  have word {spelling : String} {which : Terminal} {first : Char} {rest : List Char}
      (known : keywords.lookup spelling = some which) (letters : spelling.toList = first :: rest)
      (starts : isWordStart first = true) (continues : rest.all isWordPart = true) :
      IsKeyword spelling which :=
    ⟨known, first, rest, letters, starts, List.all_eq_true.mp continues⟩
  cases which <;>
    simp only [Terminal.spellings, List.mem_cons, List.not_mem_nil, or_false] at listed
  case andWord | orWord | varWord =>
    rcases listed with rfl | rfl <;> first
      | exact .inr (.inr ⟨_, _, rfl, rfl⟩)
      | exact .inl (word (by decide +kernel) rfl (by decide) (by decide))
  all_goals subst listed
  all_goals first
    | exact .inr (.inl ⟨_, rfl, rfl⟩)
    | exact .inr (.inr ⟨_, _, rfl, rfl⟩)
    | exact .inl (word (by decide +kernel) rfl (by decide) (by decide))

theorem mem_spellings_of_lookup (known : keywords.lookup spelling = some which) :
    spelling ∈ which.spellings := by
  have listed : ∀ entry ∈ keywords, entry.1 ∈ entry.2.spellings := by decide +kernel
  obtain ⟨before, after, table, -⟩ := List.lookup_eq_some_iff.mp known
  exact listed (spelling, which) (by rw [table]; exact List.mem_append_right _ List.mem_cons_self)

theorem spells_singleMark (found : singleMark? c = some which) : Spells (.terminal which) [c] := by
  have listed : String.ofList [c] ∈ which.spellings := by
    unfold singleMark? at found
    split at found <;> cases found <;> decide +kernel
  simpa only [String.toList_ofList] using Spells.terminal listed

theorem spells_doubleMark (found : doubleMark? c d = some which) :
    Spells (.terminal which) [c, d] := by
  have listed : String.ofList [c, d] ∈ which.spellings := by
    unfold doubleMark? at found
    split at found <;> cases found <;> decide +kernel
  simpa only [String.toList_ofList] using Spells.terminal listed

theorem spells_wordKind {first : Char} {rest : List Char} (starts : isWordStart first = true)
    (continues : ∀ c ∈ rest, isWordPart c = true) :
    Spells (wordKind (String.ofList (first :: rest))) (first :: rest) := by
  unfold wordKind
  cases known : keywords.lookup (String.ofList (first :: rest)) with
  | some which =>
    have spelt := Spells.terminal (mem_spellings_of_lookup known)
    rwa [String.toList_ofList] at spelt
  | none =>
    refine .identifier starts continues fun which listed => ?_
    rcases terminal_cases listed with keyword | ⟨c, letters, mark⟩ | ⟨c, d, letters, mark⟩
    · cases known.symm.trans keyword.1
    · rw [String.toList_ofList] at letters
      obtain ⟨rfl, -⟩ := List.cons.inj letters
      rw [(isMark_of_singleMark? mark).2.2.1] at starts
      cases starts
    · rw [String.toList_ofList] at letters
      obtain ⟨rfl, -⟩ := List.cons.inj letters
      rw [(isMark_of_doubleMark? mark).2.2.1] at starts
      cases starts

namespace Spells

variable {kind : Token.Kind} {first : Char} {rest : List Char}

/-- Which lexemes begin with a character: words with a letter, numbers with a digit, strings with a
quote, and marks with nothing of these. -/
inductive Shape : Token.Kind → Char → List Char → Prop where
  | word {first : Char} {rest : List Char} (starts : isWordStart first = true)
    (continues : ∀ c ∈ rest, isWordPart c = true) :
    Shape (wordKind (String.ofList (first :: rest))) first rest
  | whole {first : Char} {rest : List Char} (digit : isDigit first = true)
    (digital : ∀ c ∈ rest, isDigit c = true) :
    Shape (.number (Number.ofDigits (first :: rest) [])) first rest
  | fraction {first : Char} {rest more : List Char} (digit : isDigit first = true)
    (digital : ∀ c ∈ rest, isDigit c = true) (some : more ≠ [])
    (digital' : ∀ c ∈ more, isDigit c = true) :
    Shape (.number (Number.ofDigits (first :: rest) more)) first (rest ++ '.' :: more)
  | string {raw value : List Char} (quoted : Quoted raw value) :
    Shape (.string (String.ofList value)) '"' (raw ++ ['"'])
  | single {first : Char} {which : Terminal} (found : singleMark? first = some which) :
    Shape (.terminal which) first []
  | double {first second : Char} {which : Terminal}
    (found : doubleMark? first second = some which) :
    Shape (.terminal which) first [second]

theorem shape (spells : Spells kind (first :: rest)) : Shape kind first rest := by
  generalize spelling : first :: rest = raw at spells
  cases spells with
  | @terminal which spelling' listed =>
    rcases terminal_cases listed with ⟨known, c, tail, letters, starts, continues⟩ |
      ⟨c, letters, mark⟩ | ⟨c, d, letters, mark⟩
    · rw [letters] at spelling
      obtain ⟨rfl, rfl⟩ := List.cons.inj spelling
      have kind : wordKind (String.ofList (first :: rest)) = .terminal which := by
        rw [← letters, String.ofList_toList, wordKind, known]
      exact kind ▸ .word starts continues
    · rw [letters] at spelling
      obtain ⟨rfl, rfl⟩ := List.cons.inj spelling
      exact .single mark
    · rw [letters] at spelling
      obtain ⟨rfl, rfl⟩ := List.cons.inj spelling
      exact .double mark
  | @identifier first' rest' starts continues free =>
    obtain ⟨rfl, rfl⟩ := List.cons.inj spelling
    have unknown : wordKind (String.ofList (first :: rest)) = .identifier := by
      unfold wordKind
      cases known : keywords.lookup (String.ofList (first :: rest)) with
      | none => rfl
      | some which => exact absurd (mem_spellings_of_lookup known) (free which)
    exact unknown ▸ .word starts continues
  | whole some digital =>
    subst spelling
    obtain ⟨digit, digital⟩ := List.forall_mem_cons.mp digital
    exact .whole digit digital
  | @fraction digits more some digital some' digital' =>
    obtain ⟨c, digits, rfl⟩ := List.exists_cons_of_ne_nil some
    obtain ⟨rfl, rfl⟩ := List.cons.inj spelling
    obtain ⟨digit, digital⟩ := List.forall_mem_cons.mp digital
    exact .fraction digit digital some' digital'
  | string quoted =>
    obtain ⟨rfl, rfl⟩ := List.cons.inj spelling
    exact .string quoted

theorem ne_nil {raw : List Char} (spells : Spells kind raw) : raw ≠ [] := by
  rintro rfl
  generalize spelling : ([] : List Char) = raw at spells
  cases spells with
  | terminal listed =>
    rcases terminal_cases listed with ⟨-, c, tail, letters, -⟩ | ⟨c, letters, -⟩ |
      ⟨c, d, letters, -⟩ <;> rw [letters] at spelling <;> cases spelling
  | identifier _ _ _ => cases spelling
  | whole some _ => exact some spelling.symm
  | fraction _ _ _ _ => exact absurd spelling (by simp)
  | string _ => cases spelling

end Spells

end Lexeme

end ClassScript

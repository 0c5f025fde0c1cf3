import ClassScript.Token.Lexeme

/-!
Scanning: a text is read front to back into tokens and faults, and reading goes on after a fault.
The last item is the end mark. Main statement: every item is bought with at least one byte of the
text, so reading ends.
-/

set_option autoImplicit false

namespace ClassScript.Token

/-- What scanning finds: a token, or a fault and its place. -/
abbrev Item := Except (Located LexicalFault) Token

structure Cursor where
  rest : List Char
  /-- Bytes of a character that an invalid escape has begun, still to be read before `rest`. -/
  torn : Nat
  position : Position

namespace Cursor

def start (text : List Char) : Cursor :=
  { rest := text, torn := 0, position := .start }

def skip (cursor : Cursor) (raw : List Char) : Cursor :=
  { rest := cursor.rest.drop raw.length, torn := 0, position := cursor.position.past raw }

def bytesLeft (cursor : Cursor) : Nat :=
  (cursor.rest.map Char.utf8Size).foldr (· + ·) 0 + cursor.torn

end Cursor

inductive Step where
  | blank (next : Cursor)
  | item (found : Item) (next : Cursor)
  | finish (mark : Token)

/-- The character whose number is the first byte of a character's encoding. -/
def leadingByte (c : Char) : Char :=
  Char.ofNat ((String.utf8EncodeChar c).headD 0).toNat

namespace Cursor

/-- Read one blank, comment, token or fault. -/
def step (cursor : Cursor) : Step :=
  if cursor.torn ≠ 0 then
    .item (.error ⟨.brokenCharacter, cursor.position⟩)
      { cursor with torn := 0, position := cursor.position.right cursor.torn }
  else
    match cursor.rest with
    | [] => .finish { kind := .finish, lexeme := "", position := cursor.position }
    | first :: rest =>
      match Lexeme.front first rest with
      | .blank raw => .blank (cursor.skip raw)
      | .token kind raw =>
        .item (.ok { kind, lexeme := String.ofList raw, position := cursor.position })
          (cursor.skip raw)
      | .fault cause raw => .item (.error ⟨cause, cursor.position⟩) (cursor.skip raw)
      | .escapeFault raw escaped =>
        let backslash := cursor.position.past raw
        .item (.error ⟨.invalidEscape (leadingByte escaped), backslash⟩)
          { rest := cursor.rest.drop (raw.length + 2), torn := escaped.utf8Size - 1,
            position := backslash.right 2 }

private theorem bytes_drop_le (count : Nat) (cs : List Char) :
    ((cs.drop count).map Char.utf8Size).foldr (· + ·) 0 ≤
      (cs.map Char.utf8Size).foldr (· + ·) 0 := by
  induction cs generalizing count with
  | nil => simp
  | cons c cs ih =>
    cases count with
    | zero => simp
    | succ count =>
      have := ih count
      simp only [List.drop_succ_cons, List.map_cons, List.foldr_cons]
      omega

private theorem bytes_drop_lt (count : Nat) (positive : 0 < count) (c : Char) (cs : List Char) :
    (((c :: cs).drop count).map Char.utf8Size).foldr (· + ·) 0 <
      ((c :: cs).map Char.utf8Size).foldr (· + ·) 0 := by
  obtain ⟨less, rfl⟩ : ∃ less, count = less + 1 := ⟨count - 1, by omega⟩
  have := bytes_drop_le less cs
  have := c.utf8Size_pos
  simp only [List.drop_succ_cons, List.map_cons, List.foldr_cons]
  omega

private theorem skip_bytesLeft_lt {cursor : Cursor} {first : Char} {rest raw : List Char}
    (untorn : cursor.torn = 0) (text : cursor.rest = first :: rest) (taken : raw ≠ []) :
    (cursor.skip raw).bytesLeft < cursor.bytesLeft := by
  have := bytes_drop_lt raw.length (List.length_pos_iff.mpr taken) first rest
  simp only [bytesLeft, skip, text, untorn]
  omega

theorem step_blank_bytesLeft_lt {cursor next : Cursor} (found : cursor.step = .blank next) :
    next.bytesLeft < cursor.bytesLeft := by
  unfold step at found
  split at found
  · simp at found
  rename_i untorn
  split at found
  · simp at found
  rename_i first rest text
  have taken := Lexeme.front_raw_ne_nil first rest
  split at found <;> simp at found
  rename_i raw front
  rw [front] at taken
  exact found ▸ skip_bytesLeft_lt (by simpa using untorn) text taken

theorem step_item_bytesLeft_lt {cursor next : Cursor} {item : Item}
    (found : cursor.step = .item item next) : next.bytesLeft < cursor.bytesLeft := by
  unfold step at found
  split at found
  · rename_i torn
    simp only [Step.item.injEq] at found
    rw [← found.2]
    simp only [bytesLeft]
    omega
  rename_i untorn
  have untorn : cursor.torn = 0 := by simpa using untorn
  split at found
  · simp at found
  rename_i first rest text
  have taken := Lexeme.front_raw_ne_nil first rest
  split at found <;> simp at found
  · rename_i raw front
    rw [front] at taken
    exact found.2 ▸ skip_bytesLeft_lt untorn text taken
  · rename_i raw front
    rw [front] at taken
    exact found.2 ▸ skip_bytesLeft_lt untorn text taken
  · rename_i raw escaped front
    obtain ⟨tail, spelling⟩ := Lexeme.front_eq_escapeFault front
    rw [← found.2]
    have after : (raw ++ '\\' :: escaped :: tail).drop (raw.length + 2) = tail := by
      simp [List.drop_append]
    have := escaped.utf8Size_pos
    have := Char.utf8Size_pos '\\'
    simp only [bytesLeft, untorn, text, spelling, after, List.map_append, List.map_cons,
      ← List.sum_eq_foldr, List.sum_append, List.sum_cons]
    omega

/-- The next item, and where reading goes on unless it is the end mark. -/
def next (cursor : Cursor) : Item × Option Cursor :=
  match _ : cursor.step with
  | .blank after => after.next
  | .item item after => (item, some after)
  | .finish mark => (.ok mark, none)
termination_by cursor.bytesLeft
decreasing_by exact step_blank_bytesLeft_lt (by assumption)

theorem next_bytesLeft_lt {cursor after : Cursor} {item : Item}
    (found : cursor.next = (item, some after)) : after.bytesLeft < cursor.bytesLeft := by
  fun_induction next cursor with
  | case1 cursor between blank ih =>
    have := step_blank_bytesLeft_lt blank
    have := ih found
    omega
  | case2 cursor _ _ step =>
    simp only [Prod.mk.injEq, Option.some.injEq] at found
    exact step_item_bytesLeft_lt (found.2 ▸ step)
  | case3 => simp at found

def items (cursor : Cursor) : List Item :=
  match _ : cursor.next with
  | (item, none) => [item]
  | (item, some after) => item :: after.items
termination_by cursor.bytesLeft
decreasing_by exact next_bytesLeft_lt (by assumption)

end Cursor

/-- A text that is read one item at a time. -/
structure Scanner where
  text : String
  /-- Where reading goes on; nothing after the end mark. -/
  cursor : Option Cursor

namespace Scanner

def ofText (text : String) : Scanner :=
  { text, cursor := some (.start text.toList) }

def reset (scanner : Scanner) : Scanner :=
  .ofText scanner.text

/-- The next item, if the end mark has not been given yet. -/
def next (scanner : Scanner) : Option Item × Scanner :=
  match scanner.cursor with
  | none => (none, scanner)
  | some cursor =>
    let (item, after) := cursor.next
    (some item, { scanner with cursor := after })

end Scanner

def scanAll (text : String) : List Item :=
  (Cursor.start text.toList).items

/-- The tokens of items up to the first fault, or that fault. -/
def collect : List Item → Except (Located LexicalFault) (List Token)
  | [] => .ok []
  | .error fault :: _ => .error fault
  | .ok token :: rest => (collect rest).map (token :: ·)

theorem eq_map_of_collect {items : List Item} {tokens : List Token}
    (collected : collect items = .ok tokens) : items = tokens.map .ok := by
  induction items generalizing tokens with
  | nil =>
    cases collected
    rfl
  | cons item items ih =>
    cases item with
    | error fault => cases collected
    | ok token =>
      cases given : collect items with
      | error fault =>
        rw [collect, given] at collected
        cases collected
      | ok others =>
        rw [collect, given] at collected
        cases collected
        rw [List.map_cons, ih given]

def scan (text : String) : Except (Located LexicalFault) (List Token) :=
  collect (scanAll text)

end ClassScript.Token

import ClassScript.Syntax.Grammar

/-!
The grammar as relations, one per rule: some tokens begin with a phrase of the rule, other tokens
are left after it, and the phrase has the given tree. Each rule also has the number of the next
reference before and after the phrase. An arrow is followed by a type and a block if it can be, and
otherwise by an expression that goes on as far as it can, with the semicolon after it if there is
one; an `else` belongs to the nearest `if`, and a statement that begins with a brace is a block.
-/

set_option autoImplicit false

namespace ClassScript.Phrase

open Grammar

def mapped {α : Type} (recognise : Terminal → Option α) (token : Token) : Option α :=
  match token.kind with
  | .terminal which => recognise which
  | _ => none

def accessWords : List (Terminal × Visibility) :=
  [(.publicWord, .everyone), (.protectedWord, .heirs), (.privateWord, .owner)]

def dispatchWords : List (Terminal × Dispatch) :=
  [(.virtualWord, .virtual), (.overrideWord, .override)]

def unaryMarks : List (Terminal × UnaryOp) :=
  [(.bang, .not), (.minus, .negate)]

/-- The marks between operands by their levels, from `logic_or` to `factor`. -/
def operatorMarks : Nat → List (Terminal × Operator)
  | 0 => [(.orWord, .logical .or)]
  | 1 => [(.andWord, .logical .and)]
  | 2 => [(.equalEqual, .binary .equal), (.bangEqual, .binary .notEqual)]
  | 3 => [(.less, .binary .less), (.lessEqual, .binary .lessEqual), (.greater, .binary .greater),
      (.greaterEqual, .binary .greaterEqual)]
  | 4 => [(.plus, .binary .add), (.minus, .binary .subtract)]
  | 5 => [(.star, .binary .multiply), (.slash, .binary .divide), (.percent, .binary .remainder)]
  | _ => []

/-- The marks of assignments, each with the operation that it abbreviates. -/
def assignmentMarks : List (Terminal × Option BinaryOp) :=
  [(.equal, none), (.plusEqual, some .add), (.minusEqual, some .subtract),
    (.starEqual, some .multiply), (.slashEqual, some .divide)]

/-- What a table makes of a token with a fixed meaning. -/
def meant {α : Type} (table : List (Terminal × α)) : Token → Option α :=
  mapped fun which => table.lookup which

/-- `NUMBER | STRING | "true" | "false" | "nil"` -/
inductive Denotes : Token.Kind → Literal → Prop where
  | number {value : Float} : Denotes (.number value) (.number value)
  | string {value : String} : Denotes (.string value) (.text value)
  | true : Denotes (.terminal .trueWord) (.boolean true)
  | false : Denotes (.terminal .falseWord) (.boolean false)
  | nil : Denotes (.terminal .nilWord) .nil

/-- The tree of an operator between operands. -/
def joined (left : Expr) (position : Position) (right : Expr) : Operator → Expr
  | .logical operator => .logical left operator right
  | .binary operator => .binary left operator right position

def named (token : Token) : Identifier :=
  { name := token.lexeme, position := token.position }

def starts (which : Terminal) : List Token → Bool
  | [] => false
  | token :: _ => token.isTerminal which

def ended : List Token → Bool
  | [] => true
  | token :: _ => token.isFinish

/-- The first of some tokens has none of the given meanings. -/
def Avoids (refused : Terminal → Prop) : List Token → Prop
  | [] => True
  | token :: _ => ∀ which, token.kind = .terminal which → ¬refused which

/-- The tokens that make a longer operand or operation of one: those that open an access, and the
operators of a level and of tighter ones. -/
def Extends (level : Nat) (which : Terminal) : Prop :=
  which = .leftParen ∨ which = .dot ∨ which = .leftBracket ∨
    ∃ tighter < 6, level ≤ tighter ∧ ((operatorMarks tighter).lookup which).isSome

/-- The tokens that make a longer expression of one. -/
def Continues (which : Terminal) : Prop :=
  Extends 0 which ∨ (assignmentMarks.lookup which).isSome

instance (level : Nat) (which : Terminal) : Decidable (Extends level which) :=
  inferInstanceAs (Decidable (_ ∨ _ ∨ _ ∨ ∃ tighter < 6, _ ∧ _))

instance (which : Terminal) : Decidable (Continues which) :=
  inferInstanceAs (Decidable (Extends 0 which ∨ _))

/-- The value that an assignment assigns; `target op= value` assigns `target op value`. -/
def assigned (abbreviated : Option BinaryOp) (target : Expr) (mark : Token) (right : Expr) : Expr :=
  match abbreviated with
  | none => right
  | some operator => .binary target operator right mark.position

/-- What is still to be read: the tokens, and the number of the next reference. -/
structure Feed where
  tokens : List Token
  nextId : RefId

mutual

/-- `type → IDENT ( "<" type ( "," type )* ">" )?` -/
inductive TypePhrase : List Token → List Token → TypeName → Prop where
  | plain {name : Token} {after : List Token} (isName : name.isIdentifier) :
    TypePhrase (name :: after) after { name := name.lexeme, arguments := [] }
  | generic {name opening closing : Token} {rest after : List Token} {arguments : List TypeName}
    (isName : name.isIdentifier) (opens : opening.isTerminal .less)
    (inner : TypePhrases rest (closing :: after) arguments) (closes : closing.isTerminal .greater) :
    TypePhrase (name :: opening :: rest) after { name := name.lexeme, arguments }

/-- `type ( "," type )*` -/
inductive TypePhrases : List Token → List Token → List TypeName → Prop where
  | last {before after : List Token} {found : TypeName} (only : TypePhrase before after found) :
    TypePhrases before after [found]
  | more {before rest after : List Token} {comma : Token} {found : TypeName}
    {others : List TypeName} (first : TypePhrase before (comma :: rest) found)
    (isComma : comma.isTerminal .comma) (next : TypePhrases rest after others) :
    TypePhrases before after (found :: others)

end

/-- A type and the opening brace of a block after it come next. -/
def Annotated (tokens : List Token) : Prop :=
  ∃ brace rest found, TypePhrase tokens (brace :: rest) found ∧ brace.isTerminal .leftBrace

/-- `( ":" type )?` -/
inductive Hint : List Token → List Token → Option TypeName → Prop where
  | none {before : List Token} : Hint before before none
  | some {colon : Token} {rest after : List Token} {found : TypeName}
    (isColon : colon.isTerminal .colon) (isType : TypePhrase rest after found) :
    Hint (colon :: rest) after (some found)

/-- `parameters → IDENT ( ":" type )? ( "," IDENT ( ":" type )? )*` -/
inductive Parameters : List Token → List Token → List Parameter → Prop where
  | last {name : Token} {rest after : List Token} {hint : Option TypeName}
    (isName : name.isIdentifier) (typed : Hint rest after hint) :
    Parameters (name :: rest) after [{ name := named name, typeHint := hint }]
  | more {name comma : Token} {rest rest' after : List Token} {hint : Option TypeName}
    {others : List Parameter} (isName : name.isIdentifier) (typed : Hint rest (comma :: rest') hint)
    (isComma : comma.isTerminal .comma) (next : Parameters rest' after others) :
    Parameters (name :: rest) after ({ name := named name, typeHint := hint } :: others)

/-- `parameters?`, at most 255 of them -/
inductive ParameterList : List Token → List Token → List Parameter → Prop where
  | none {before : List Token} : ParameterList before before []
  | some {before after : List Token} {found : List Parameter}
    (parameters : Parameters before after found) (few : found.length ≤ 255) :
    ParameterList before after found

/-- The modifiers before a member, in either order and each kind at most once. -/
inductive Modifiers : Option Visibility → Option Dispatch → List Token → List Token →
    Visibility × Dispatch → Prop where
  | none {access : Option Visibility} {dispatch : Option Dispatch} {before : List Token} :
    Modifiers access dispatch before before (access.getD .everyone, dispatch.getD .plain)
  | access {dispatch : Option Dispatch} {word : Token} {rest after : List Token}
    {visibility : Visibility} {found : Visibility × Dispatch}
    (isWord : meant accessWords word = some visibility)
    (next : Modifiers (some visibility) dispatch rest after found) :
    Modifiers none dispatch (word :: rest) after found
  | dispatch {access : Option Visibility} {word : Token} {rest after : List Token}
    {kind : Dispatch} {found : Visibility × Dispatch}
    (isWord : meant dispatchWords word = some kind)
    (next : Modifiers access (some kind) rest after found) :
    Modifiers access none (word :: rest) after found

/-- `( "extends" IDENT )?` -/
inductive Superclass : Feed → Feed → Option SuperclassRef → Prop where
  | none {before : Feed} : Superclass before before none
  | some {word name : Token} {after : List Token} {id : RefId}
    (isWord : word.isTerminal .extendsWord) (isName : name.isIdentifier) :
    Superclass ⟨word :: name :: after, id⟩ ⟨after, id + 1⟩ (some { id, name := named name })

mutual

/-- `assignment → ( call "." IDENT | call "[" expression "]" | IDENT )
( "=" | "+=" | "-=" | "*=" | "/=" ) assignment | logic_or` -/
inductive Expression : Feed → Feed → Expr → Prop where
  | operation {before after : Feed} {value : Expr} (isValue : Operation 0 before after value) :
    Expression before after value
  | assign {name mark : Token} {rest after : List Token} {first last : RefId}
    {abbreviated : Option BinaryOp} {right : Expr} (isName : name.isIdentifier)
    (isMark : meant assignmentMarks mark = some abbreviated)
    (isValue : Expression ⟨rest, first + 1⟩ ⟨after, last⟩ right) :
    Expression ⟨name :: mark :: rest, first⟩ ⟨after, last + 1⟩
      (.assign last (named name) (assigned abbreviated (.reference first (named name)) mark right))
  | setProperty {before after : Feed} {dot name mark : Token} {rest : List Token} {id : RefId}
    {abbreviated : Option BinaryOp} {object right : Expr}
    (target : Call before ⟨dot :: name :: mark :: rest, id⟩ object) (isDot : dot.isTerminal .dot)
    (isName : name.isIdentifier) (isMark : meant assignmentMarks mark = some abbreviated)
    (isValue : Expression ⟨rest, id⟩ after right) :
    Expression before after
      (.setProperty object (named name)
        (assigned abbreviated (.property object (named name)) mark right))
  | setIndex {before after : Feed} {opening closing mark : Token} {inner rest : List Token}
    {id id' : RefId} {abbreviated : Option BinaryOp} {object key right : Expr}
    (target : Call before ⟨opening :: inner, id⟩ object) (opens : opening.isTerminal .leftBracket)
    (isKey : Expression ⟨inner, id⟩ ⟨closing :: mark :: rest, id'⟩ key)
    (closes : closing.isTerminal .rightBracket)
    (isMark : meant assignmentMarks mark = some abbreviated)
    (isValue : Expression ⟨rest, id'⟩ after right) :
    Expression before after
      (.setIndex object key
        (assigned abbreviated (.index object key opening.position) mark right) opening.position)

/-- `logic_or`, `logic_and`, `equality`, `comparison`, `term`, `factor` and `unary` as levels: a
phrase of the next level, or a phrase of the same level, an operator of it and a phrase of the
next one. -/
inductive Operation : Nat → Feed → Feed → Expr → Prop where
  | operand {before after : Feed} {value : Expr} (isValue : Operand before after value) :
    Operation 6 before after value
  | tighter {level : Nat} {before after : Feed} {value : Expr} (loose : level < 6)
    (isValue : Operation (level + 1) before after value) : Operation level before after value
  | join {level : Nat} {before after : Feed} {mark : Token} {rest : List Token} {id : RefId}
    {operator : Operator} {left right : Expr} (loose : level < 6)
    (first : Operation level before ⟨mark :: rest, id⟩ left)
    (isOperator : meant (operatorMarks level) mark = some operator)
    (second : Operation (level + 1) ⟨rest, id⟩ after right) :
    Operation level before after (joined left mark.position right operator)

/-- `unary → ( "!" | "-" ) unary | call` -/
inductive Operand : Feed → Feed → Expr → Prop where
  | unary {mark : Token} {rest : List Token} {id : RefId} {after : Feed} {operator : UnaryOp}
    {inner : Expr} (isOperator : meant unaryMarks mark = some operator)
    (isOperand : Operand ⟨rest, id⟩ after inner) :
    Operand ⟨mark :: rest, id⟩ after (.unary operator inner mark.position)
  | call {before after : Feed} {value : Expr} (isValue : Call before after value) :
    Operand before after value

/-- `call → primary ( "(" arguments? ")" | "." IDENT | "[" expression "]" )*`, at most 255
arguments -/
inductive Call : Feed → Feed → Expr → Prop where
  | primary {before after : Feed} {value : Expr} (isValue : Primary before after value) :
    Call before after value
  | call {before : Feed} {opening closing : Token} {after : List Token} {id : RefId}
    {callee : Expr} (target : Call before ⟨opening :: closing :: after, id⟩ callee)
    (opens : opening.isTerminal .leftParen) (closes : closing.isTerminal .rightParen) :
    Call before ⟨after, id⟩ (.call callee opening.position [])
  | callWith {before : Feed} {opening closing : Token} {inner after : List Token} {id id' : RefId}
    {callee : Expr} {arguments : List Expr} (target : Call before ⟨opening :: inner, id⟩ callee)
    (opens : opening.isTerminal .leftParen)
    (areValues : Commas ⟨inner, id⟩ ⟨closing :: after, id'⟩ arguments)
    (few : arguments.length ≤ 255) (closes : closing.isTerminal .rightParen) :
    Call before ⟨after, id'⟩ (.call callee opening.position arguments)
  | property {before : Feed} {dot name : Token} {after : List Token} {id : RefId} {object : Expr}
    (target : Call before ⟨dot :: name :: after, id⟩ object) (isDot : dot.isTerminal .dot)
    (isName : name.isIdentifier) : Call before ⟨after, id⟩ (.property object (named name))
  | index {before : Feed} {opening closing : Token} {inner after : List Token} {id id' : RefId}
    {object key : Expr} (target : Call before ⟨opening :: inner, id⟩ object)
    (opens : opening.isTerminal .leftBracket)
    (isKey : Expression ⟨inner, id⟩ ⟨closing :: after, id'⟩ key)
    (closes : closing.isTerminal .rightBracket) :
    Call before ⟨after, id'⟩ (.index object key opening.position)

/-- `expression ( "," expression )*` -/
inductive Commas : Feed → Feed → List Expr → Prop where
  | last {before after : Feed} {value : Expr} (only : Expression before after value) :
    Commas before after [value]
  | more {before after : Feed} {comma : Token} {rest : List Token} {id : RefId} {value : Expr}
    {others : List Expr} (first : Expression before ⟨comma :: rest, id⟩ value)
    (isComma : comma.isTerminal .comma) (next : Commas ⟨rest, id⟩ after others) :
    Commas before after (value :: others)

/-- `primary → NUMBER | STRING | "true" | "false" | "nil" | IDENT | "this" | "super" "." IDENT
| "(" expression ")" | "[" elements? "]" | "{" entries? "}" | "fn" "(" parameters? ")" body` -/
inductive Primary : Feed → Feed → Expr → Prop where
  | literal {token : Token} {after : List Token} {id : RefId} {value : Literal}
    (isLiteral : Denotes token.kind value) :
    Primary ⟨token :: after, id⟩ ⟨after, id⟩ (.literal value token.position)
  | reference {name : Token} {after : List Token} {id : RefId} (isName : name.isIdentifier) :
    Primary ⟨name :: after, id⟩ ⟨after, id + 1⟩ (.reference id (named name))
  | this {word : Token} {after : List Token} {id : RefId} (isWord : word.isTerminal .thisWord) :
    Primary ⟨word :: after, id⟩ ⟨after, id + 1⟩ (.this id word.position)
  | super {word dot name : Token} {after : List Token} {id : RefId}
    (isWord : word.isTerminal .superWord) (isDot : dot.isTerminal .dot)
    (isName : name.isIdentifier) :
    Primary ⟨word :: dot :: name :: after, id⟩ ⟨after, id + 1⟩
      (.super id word.position (named name))
  | group {opening closing : Token} {inner after : List Token} {id id' : RefId} {value : Expr}
    (opens : opening.isTerminal .leftParen)
    (isValue : Expression ⟨inner, id⟩ ⟨closing :: after, id'⟩ value)
    (closes : closing.isTerminal .rightParen) :
    Primary ⟨opening :: inner, id⟩ ⟨after, id'⟩ (.group value)
  | array {opening closing : Token} {inner after : List Token} {id id' : RefId}
    {values : List Expr} (opens : opening.isTerminal .leftBracket)
    (areValues : Elements ⟨inner, id⟩ ⟨closing :: after, id'⟩ values)
    (closes : closing.isTerminal .rightBracket) :
    Primary ⟨opening :: inner, id⟩ ⟨after, id'⟩ (.array values opening.position)
  | map {opening closing : Token} {inner after : List Token} {id id' : RefId}
    {pairs : List (Expr × Expr)} (opens : opening.isTerminal .leftBrace)
    (arePairs : Entries ⟨inner, id⟩ ⟨closing :: after, id'⟩ pairs)
    (closes : closing.isTerminal .rightBrace) :
    Primary ⟨opening :: inner, id⟩ ⟨after, id'⟩ (.map pairs opening.position)
  | lambda {word opening : Token} {inner : List Token} {id : RefId} {after : Feed}
    {decl : FunctionDecl Stmt} (isWord : word.isTerminal .fnWord)
    (opens : opening.isTerminal .leftParen)
    (isRest : FunctionRest { name := "<lambda>", position := word.position } ⟨inner, id⟩ after
      decl) :
    Primary ⟨word :: opening :: inner, id⟩ after (.lambda decl)

/-- `elements?`, where a comma may follow the last one -/
inductive Elements : Feed → Feed → List Expr → Prop where
  | none {before : Feed} : Elements before before []
  | last {before after : Feed} {value : Expr} (only : Expression before after value) :
    Elements before after [value]
  | more {before after : Feed} {comma : Token} {rest : List Token} {id : RefId} {value : Expr}
    {others : List Expr} (first : Expression before ⟨comma :: rest, id⟩ value)
    (isComma : comma.isTerminal .comma) (next : Elements ⟨rest, id⟩ after others) :
    Elements before after (value :: others)

/-- `entries?`, where a comma may follow the last one -/
inductive Entries : Feed → Feed → List (Expr × Expr) → Prop where
  | none {before : Feed} : Entries before before []
  | last {before after : Feed} {colon : Token} {rest : List Token} {id : RefId} {key value : Expr}
    (isKey : Expression before ⟨colon :: rest, id⟩ key) (isColon : colon.isTerminal .colon)
    (isValue : Expression ⟨rest, id⟩ after value) : Entries before after [(key, value)]
  | more {before after : Feed} {colon comma : Token} {rest rest' : List Token} {id id' : RefId}
    {key value : Expr} {others : List (Expr × Expr)}
    (isKey : Expression before ⟨colon :: rest, id⟩ key) (isColon : colon.isTerminal .colon)
    (isValue : Expression ⟨rest, id⟩ ⟨comma :: rest', id'⟩ value)
    (isComma : comma.isTerminal .comma)
    (next : Entries ⟨rest', id'⟩ after others) :
    Entries before after ((key, value) :: others)

/-- `parameters? ")" body`, after the opening parenthesis -/
inductive FunctionRest : Identifier → Feed → Feed → FunctionDecl Stmt → Prop where
  | rest {name : Identifier} {before rest : List Token} {closing : Token} {id : RefId}
    {after : Feed} {parameters : List Parameter} {returns : Option TypeName} {body : List Stmt}
    (declared : ParameterList before (closing :: rest) parameters)
    (closes : closing.isTerminal .rightParen)
    (isBody : FunctionBody ⟨rest, id⟩ after (returns, body)) :
    FunctionRest name ⟨before, id⟩ after { name, parameters, returns, body }

/-- `body → block | "->" type block | "->" expression ";"?` -/
inductive FunctionBody : Feed → Feed → Option TypeName × List Stmt → Prop where
  | block {opening : Token} {rest : List Token} {id : RefId} {after : Feed} {body : List Stmt}
    (opens : opening.isTerminal .leftBrace) (isBody : Block ⟨rest, id⟩ after body) :
    FunctionBody ⟨opening :: rest, id⟩ after (none, body)
  | annotated {arrow opening : Token} {inner rest : List Token} {id : RefId} {after : Feed}
    {returns : TypeName} {body : List Stmt} (isArrow : arrow.isTerminal .arrow)
    (isType : TypePhrase inner (opening :: rest) returns)
    (opens : opening.isTerminal .leftBrace) (isBody : Block ⟨rest, id⟩ after body) :
    FunctionBody ⟨arrow :: inner, id⟩ after (some returns, body)
  | expression {arrow : Token} {rest : List Token} {id : RefId} {after : Feed} {value : Expr}
    (isArrow : arrow.isTerminal .arrow) (plain : ¬Annotated rest)
    (isValue : Expression ⟨rest, id⟩ after value)
    (whole : Avoids (fun which => Continues which ∨ which = .semicolon) after.tokens) :
    FunctionBody ⟨arrow :: rest, id⟩ after (none, [.returnValue arrow.position (some value)])
  | terminated {arrow mark : Token} {rest after : List Token} {id id' : RefId} {value : Expr}
    (isArrow : arrow.isTerminal .arrow) (plain : ¬Annotated rest)
    (isValue : Expression ⟨rest, id⟩ ⟨mark :: after, id'⟩ value)
    (isMark : mark.isTerminal .semicolon) :
    FunctionBody ⟨arrow :: rest, id⟩ ⟨after, id'⟩ (none, [.returnValue arrow.position (some value)])

/-- `declaration* "}"`, after the opening brace of a block -/
inductive Block : Feed → Feed → List Stmt → Prop where
  | none {closing : Token} {after : List Token} {id : RefId}
    (closes : closing.isTerminal .rightBrace) : Block ⟨closing :: after, id⟩ ⟨after, id⟩ []
  | more {before middle after : Feed} {stmt : Stmt} {others : List Stmt}
    (first : Declaration before middle stmt) (next : Block middle after others) :
    Block before after (stmt :: others)

/-- `declaration → classDecl | funDecl | varDecl | statement` -/
inductive Declaration : Feed → Feed → Stmt → Prop where
  | classDecl {word name opening : Token} {rest inner : List Token} {id id' : RefId} {after : Feed}
    {superclass : Option SuperclassRef} {members : Members}
    (isWord : word.isTerminal .classWord) (isName : name.isIdentifier)
    (clause : Superclass ⟨rest, id⟩ ⟨opening :: inner, id'⟩ superclass)
    (opens : opening.isTerminal .leftBrace) (isBody : MemberList ⟨inner, id'⟩ after members) :
    Declaration ⟨word :: name :: rest, id⟩ after
      (.classDecl { name := named name, superclass, fields := members.fields,
                    methods := members.methods })
  | function {word name opening : Token} {rest : List Token} {id : RefId} {after : Feed}
    {decl : FunctionDecl Stmt} (isWord : word.isTerminal .fnWord) (isName : name.isIdentifier)
    (opens : opening.isTerminal .leftParen)
    (isRest : FunctionRest (named name) ⟨rest, id⟩ after decl) :
    Declaration ⟨word :: name :: opening :: rest, id⟩ after (.function decl)
  | var {word : Token} {rest : List Token} {id : RefId} {after : Feed} {name : Identifier}
    {hint : Option TypeName} {initial : Option Expr} (isWord : word.isTerminal .varWord)
    (declared : Variable ⟨rest, id⟩ after name hint initial) :
    Declaration ⟨word :: rest, id⟩ after (.var name hint initial)
  | statement {before after : Feed} {stmt : Stmt} (isStmt : Statement before after stmt) :
    Declaration before after stmt

/-- `IDENT ( ":" type )? ( "=" expression )? ";"`, after the keyword of a variable or field -/
inductive Variable : Feed → Feed → Identifier → Option TypeName → Option Expr → Prop where
  | declared {name mark : Token} {rest middle after : List Token} {id id' : RefId}
    {hint : Option TypeName} {initial : Option Expr} (isName : name.isIdentifier)
    (typed : Hint rest middle hint) (isInitial : Initial ⟨middle, id⟩ ⟨mark :: after, id'⟩ initial)
    (isMark : mark.isTerminal .semicolon) :
    Variable ⟨name :: rest, id⟩ ⟨after, id'⟩ (named name) hint initial

/-- `( "=" expression )?` -/
inductive Initial : Feed → Feed → Option Expr → Prop where
  | none {before : Feed} : Initial before before none
  | some {equals : Token} {rest : List Token} {id : RefId} {after : Feed} {value : Expr}
    (isEquals : equals.isTerminal .equal) (isValue : Expression ⟨rest, id⟩ after value) :
    Initial ⟨equals :: rest, id⟩ after (some value)

/-- `member* "}"`, after the opening brace of a class -/
inductive MemberList : Feed → Feed → Members → Prop where
  | none {closing : Token} {after : List Token} {id : RefId}
    (closes : closing.isTerminal .rightBrace) :
    MemberList ⟨closing :: after, id⟩ ⟨after, id⟩ { fields := [], methods := [] }
  | field {before rest : List Token} {word : Token} {id : RefId} {middle after : Feed}
    {visibility : Visibility} {name : Identifier} {hint : Option TypeName} {initial : Option Expr}
    {others : Members} (modifiers : Modifiers none none before (word :: rest) (visibility, .plain))
    (isWord : word.isTerminal .varWord) (declared : Variable ⟨rest, id⟩ middle name hint initial)
    (next : MemberList middle after others) :
    MemberList ⟨before, id⟩ after
      { others with fields := { name, visibility, typeHint := hint, initial } :: others.fields }
  | method {before rest : List Token} {word name opening : Token} {id : RefId}
    {middle after : Feed} {visibility : Visibility} {dispatch : Dispatch}
    {function : FunctionDecl Stmt} {others : Members}
    (modifiers : Modifiers none none before (word :: name :: opening :: rest)
      (visibility, dispatch))
    (isWord : word.isTerminal .fnWord) (isName : name.isIdentifier)
    (opens : opening.isTerminal .leftParen)
    (isRest : FunctionRest (named name) ⟨rest, id⟩ middle function)
    (next : MemberList middle after others) :
    MemberList ⟨before, id⟩ after
      { others with methods := { visibility, dispatch, function } :: others.methods }

/-- `statement → exprStmt | printStmt | ifStmt | whileStmt | forStmt | returnStmt | "break" ";"
| "continue" ";" | block` -/
inductive Statement : Feed → Feed → Stmt → Prop where
  | countedLoop {word opening semicolon closing : Token} {rest middle increments body : List Token}
    {id id' id'' id''' : RefId} {after : Feed} {initial : Option Stmt}
    {condition increment : Option Expr} {stmt : Stmt} (isWord : word.isTerminal .forWord)
    (opens : opening.isTerminal .leftParen)
    (isInitial : LoopInitial ⟨rest, id⟩ ⟨middle, id'⟩ initial)
    (isCondition : Optional ⟨middle, id'⟩ ⟨semicolon :: increments, id''⟩ condition)
    (isMark : semicolon.isTerminal .semicolon)
    (isIncrement : Optional ⟨increments, id''⟩ ⟨closing :: body, id'''⟩ increment)
    (closes : closing.isTerminal .rightParen) (isBody : Statement ⟨body, id'''⟩ after stmt) :
    Statement ⟨word :: opening :: rest, id⟩ after (.countedLoop initial condition increment stmt)
  | branch {word opening closing : Token} {rest body : List Token} {id id' : RefId} {after : Feed}
    {condition : Expr} {stmt : Stmt} (isWord : word.isTerminal .ifWord)
    (opens : opening.isTerminal .leftParen)
    (isCondition : Expression ⟨rest, id⟩ ⟨closing :: body, id'⟩ condition)
    (closes : closing.isTerminal .rightParen) (whenTrue : Statement ⟨body, id'⟩ after stmt)
    (alone : starts .elseWord after.tokens = false) :
    Statement ⟨word :: opening :: rest, id⟩ after (.branch condition stmt none)
  | branches {word opening closing alternative : Token} {rest body other : List Token}
    {id id' id'' : RefId} {after : Feed} {condition : Expr} {stmt stmt' : Stmt}
    (isWord : word.isTerminal .ifWord) (opens : opening.isTerminal .leftParen)
    (isCondition : Expression ⟨rest, id⟩ ⟨closing :: body, id'⟩ condition)
    (closes : closing.isTerminal .rightParen)
    (whenTrue : Statement ⟨body, id'⟩ ⟨alternative :: other, id''⟩ stmt)
    (isElse : alternative.isTerminal .elseWord)
    (whenFalse : Statement ⟨other, id''⟩ after stmt') :
    Statement ⟨word :: opening :: rest, id⟩ after (.branch condition stmt (some stmt'))
  | loop {word opening closing : Token} {rest body : List Token} {id id' : RefId} {after : Feed}
    {condition : Expr} {stmt : Stmt} (isWord : word.isTerminal .whileWord)
    (opens : opening.isTerminal .leftParen)
    (isCondition : Expression ⟨rest, id⟩ ⟨closing :: body, id'⟩ condition)
    (closes : closing.isTerminal .rightParen) (isBody : Statement ⟨body, id'⟩ after stmt) :
    Statement ⟨word :: opening :: rest, id⟩ after (.loop condition stmt)
  | returnValue {word mark : Token} {rest after : List Token} {id id' : RefId}
    {value : Option Expr} (isWord : word.isTerminal .returnWord)
    (isValue : Optional ⟨rest, id⟩ ⟨mark :: after, id'⟩ value)
    (isMark : mark.isTerminal .semicolon) :
    Statement ⟨word :: rest, id⟩ ⟨after, id'⟩ (.returnValue word.position value)
  | breakLoop {word mark : Token} {after : List Token} {id : RefId}
    (isWord : word.isTerminal .breakWord) (isMark : mark.isTerminal .semicolon) :
    Statement ⟨word :: mark :: after, id⟩ ⟨after, id⟩ (.breakLoop word.position)
  | continueLoop {word mark : Token} {after : List Token} {id : RefId}
    (isWord : word.isTerminal .continueWord) (isMark : mark.isTerminal .semicolon) :
    Statement ⟨word :: mark :: after, id⟩ ⟨after, id⟩ (.continueLoop word.position)
  | block {opening : Token} {rest : List Token} {id : RefId} {after : Feed} {body : List Stmt}
    (opens : opening.isTerminal .leftBrace) (isBody : Block ⟨rest, id⟩ after body) :
    Statement ⟨opening :: rest, id⟩ after (.block body)
  | print {word mark : Token} {rest after : List Token} {id id' : RefId} {values : List Expr}
    (isWord : word.isTerminal .printWord)
    (areValues : Commas ⟨rest, id⟩ ⟨mark :: after, id'⟩ values)
    (isMark : mark.isTerminal .semicolon) :
    Statement ⟨word :: rest, id⟩ ⟨after, id'⟩ (.print word.position values)
  | expression {before : Feed} {mark : Token} {after : List Token} {id : RefId} {value : Expr}
    (noBlock : starts .leftBrace before.tokens = false)
    (isValue : Expression before ⟨mark :: after, id⟩ value) (isMark : mark.isTerminal .semicolon) :
    Statement before ⟨after, id⟩ (.expression value)

/-- `expression?` -/
inductive Optional : Feed → Feed → Option Expr → Prop where
  | none {before : Feed} : Optional before before none
  | some {before after : Feed} {value : Expr} (isValue : Expression before after value) :
    Optional before after (some value)

/-- `varDecl | exprStmt | ";"` -/
inductive LoopInitial : Feed → Feed → Option Stmt → Prop where
  | none {mark : Token} {after : List Token} {id : RefId} (isMark : mark.isTerminal .semicolon) :
    LoopInitial ⟨mark :: after, id⟩ ⟨after, id⟩ none
  | var {word : Token} {rest : List Token} {id : RefId} {after : Feed} {name : Identifier}
    {hint : Option TypeName} {initial : Option Expr} (isWord : word.isTerminal .varWord)
    (declared : Variable ⟨rest, id⟩ after name hint initial) :
    LoopInitial ⟨word :: rest, id⟩ after (some (.var name hint initial))
  | expression {before : Feed} {mark : Token} {after : List Token} {id : RefId} {value : Expr}
    (isValue : Expression before ⟨mark :: after, id⟩ value) (isMark : mark.isTerminal .semicolon) :
    LoopInitial before ⟨after, id⟩ (some (.expression value))

end

/-- `declaration*` up to the end mark -/
inductive Declarations : Feed → Feed → List Stmt → Prop where
  | none {before : Feed} (atEnd : ended before.tokens) : Declarations before before []
  | more {before middle after : Feed} {stmt : Stmt} {others : List Stmt}
    (first : Declaration before middle stmt) (next : Declarations middle after others) :
    Declarations before after (stmt :: others)

end ClassScript.Phrase

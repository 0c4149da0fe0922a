import StackScript.Tree.Text

/-!
The text of a tree, node by node. What has been written before a node stays, and the
node is written behind it in the same way.
-/

namespace StackScript

section Append

mutual

theorem Expr.write_append (indent : Nat) (out out' : String) :
    ∀ e : Expr, e.write indent (out ++ out') = out ++ e.write indent out'
  | .binary _ left right _ => by
    simp only [Expr.write, left.write_append, right.write_append, String.append_assoc]
  | .logical _ left right _ => by
    simp only [Expr.write, left.write_append, right.write_append, String.append_assoc]
  | .unary _ operand _ => by
    simp only [Expr.write, operand.write_append, String.append_assoc]
  | .group inner _ => by simp only [Expr.write, inner.write_append, String.append_assoc]
  | .literal _ _ => by simp only [Expr.write, String.append_assoc]
  | .name _ _ => by simp only [Expr.write, String.append_assoc]
  | .function body _ => by
    have hbody := body.write_append 0 out (out' ++ "fun() ")
    cases body with
    | block ss q => simp only [Expr.write, writeLines_append, String.append_assoc]
    | _ => simpa only [Expr.write, String.append_assoc] using hbody
  | .call callee arguments _ => by
    simp only [Expr.write, callee.write_append, writeArguments_append, String.append_assoc]
  | .index callee arguments _ => by
    simp only [Expr.write, callee.write_append, writeArguments_append, String.append_assoc]
  | .member parent child _ => by
    simp only [Expr.write, parent.write_append, child.write_append, String.append_assoc]

theorem writeArguments_append (indent : Nat) (out out' : String) :
    ∀ es : List Expr, writeArguments indent (out ++ out') es = out ++ writeArguments indent out' es
  | [] => rfl
  | [e] => by simp only [writeArguments, e.write_append]
  | e :: e' :: es => by
    have hrest := writeArguments_append indent out (e.write indent out' ++ ", ") (e' :: es)
    simp only [writeArguments, e.write_append, String.append_assoc] at hrest ⊢
    exact hrest

theorem Stmt.write_append (indent : Nat) (out out' : String) :
    ∀ s : Stmt, s.write indent (out ++ out') = out ++ s.write indent out'
  | .empty _ => by simp only [Stmt.write, String.append_assoc]
  | .declare _ value _ => by simp only [Stmt.write, value.write_append, String.append_assoc]
  | .block body _ => by simp only [Stmt.write, writeLines_append, String.append_assoc]
  | .returnNull _ => by simp only [Stmt.write, String.append_assoc]
  | .returnValue value _ => by simp only [Stmt.write, value.write_append, String.append_assoc]
  | .ifThen condition body _ => by
    simp only [Stmt.write, condition.write_append, body.write_append, String.append_assoc]
  | .ifElse condition body other _ => by
    simp only [Stmt.write, condition.write_append, body.write_append, other.write_append,
      String.append_assoc]
  | .whileDo condition body _ => by
    simp only [Stmt.write, condition.write_append, body.write_append, String.append_assoc]
  | .expression value _ => by simp only [Stmt.write, value.write_append, String.append_assoc]
  | .assign target value _ => by
    simp only [Stmt.write, target.write_append, value.write_append, String.append_assoc]

theorem writeLines_append (indent : Nat) (out out' : String) :
    ∀ ss : List Stmt, writeLines indent (out ++ out') ss = out ++ writeLines indent out' ss
  | [] => rfl
  | s :: ss => by simp only [writeLines, s.write_append, writeLines_append, String.append_assoc]

end

theorem Stmt.exists_write (indent : Nat) (s : Stmt) :
    ∃ text, s.write indent "" = Text.margin indent ++ text := by
  have hvalue (e : Expr) : e.write indent (Text.margin indent) =
      Text.margin indent ++ e.write indent "" := by
    rw [← e.write_append, String.append_empty]
  cases s
  all_goals
    simp only [Stmt.write, String.empty_append, hvalue, Expr.write_append, Stmt.write_append,
      writeLines_append, String.append_assoc]
    exact ⟨_, rfl⟩

end Append

def marginChars (indent : Nat) : List Char := (Text.margin indent).toList

/-- The characters of an expression, with nothing in front of it. -/
def Expr.chars (indent : Nat) (e : Expr) : List Char := (e.write indent "").toList

/-- The characters of a statement behind its margin. -/
def Stmt.chars (indent : Nat) (s : Stmt) : List Char :=
  (s.write indent "").toList.drop (marginChars indent).length

/-- The characters of arguments and of the commas between them. -/
def exprsChars (indent : Nat) (es : List Expr) : List Char := (writeArguments indent "" es).toList

/-- The characters of statements on lines of their own. -/
def stmtsChars (indent : Nat) (ss : List Stmt) : List Char := (writeLines indent "" ss).toList

section Characters

variable (indent : Nat) (out : String)

@[simp] theorem Expr.toList_write (e : Expr) :
    (e.write indent out).toList = out.toList ++ e.chars indent := by
  have h := e.write_append indent out ""
  rw [String.append_empty] at h
  rw [h, String.toList_append, Expr.chars]

@[simp] theorem Stmt.toList_write (s : Stmt) :
    (s.write indent out).toList = out.toList ++ (marginChars indent ++ s.chars indent) := by
  have h := s.write_append indent out ""
  rw [String.append_empty] at h
  obtain ⟨text, htext⟩ := s.exists_write indent
  rw [h, String.toList_append, Stmt.chars, htext, String.toList_append, marginChars,
    List.drop_left]

@[simp] theorem toList_writeArguments (es : List Expr) :
    (writeArguments indent out es).toList = out.toList ++ exprsChars indent es := by
  have h := writeArguments_append indent out "" es
  rw [String.append_empty] at h
  rw [h, String.toList_append, exprsChars]

@[simp] theorem toList_writeLines (ss : List Stmt) :
    (writeLines indent out ss).toList = out.toList ++ stmtsChars indent ss := by
  have h := writeLines_append indent out "" ss
  rw [String.append_empty] at h
  rw [h, String.toList_append, stmtsChars]

@[simp] theorem toList_margin : (Text.margin indent).toList = marginChars indent := rfl

/-- What a statement is written as, behind its margin. -/
theorem Stmt.chars_eq {s : Stmt} {cs : List Char}
    (h : (s.write indent "").toList = marginChars indent ++ cs) : s.chars indent = cs := by
  rw [Stmt.chars, h, List.drop_left]

end Characters

section Nodes

variable (indent : Nat) (p : Position)

theorem Expr.chars_binary (op : BinaryOp) (left right : Expr) :
    (Expr.binary op left right p).chars indent =
      left.chars indent ++ ([' '] ++ (op.symbol.toList ++ ([' '] ++ right.chars indent))) := by
  rw [chars, write]
  simp

theorem Expr.chars_logical (op : LogicalOp) (left right : Expr) :
    (Expr.logical op left right p).chars indent =
      left.chars indent ++ ([' '] ++ (op.symbol.toList ++ ([' '] ++ right.chars indent))) := by
  rw [chars, write]
  simp

theorem Expr.chars_unary (op : UnaryOp) (operand : Expr) :
    (Expr.unary op operand p).chars indent = op.symbol.toList ++ operand.chars indent := by
  rw [chars, write]
  simp

theorem Expr.chars_group (inner : Expr) :
    (Expr.group inner p).chars indent = ['('] ++ (inner.chars indent ++ [')']) := by
  rw [chars, write]
  simp

theorem Expr.chars_literal (value : Value) :
    (Expr.literal value p).chars indent = value.literalText.toList := by
  rw [chars, write]
  simp

theorem Expr.chars_name (text : String) : (Expr.name text p).chars indent = text.toList := by
  rw [chars, write]
  simp

theorem Expr.chars_call (callee : Expr) (arguments : List Expr) :
    (Expr.call callee arguments p).chars indent =
      callee.chars indent ++ (['('] ++ (exprsChars indent arguments ++ [')'])) := by
  rw [chars, write]
  simp

theorem Expr.chars_index (callee : Expr) (arguments : List Expr) :
    (Expr.index callee arguments p).chars indent =
      callee.chars indent ++ (['['] ++ (exprsChars indent arguments ++ [']'])) := by
  rw [chars, write]
  simp

theorem Expr.chars_member (parent child : Expr) :
    (Expr.member parent child p).chars indent =
      parent.chars indent ++ (['.'] ++ child.chars indent) := by
  rw [chars, write]
  simp

theorem exprsChars_singleton (e : Expr) : exprsChars indent [e] = e.chars indent := by
  rw [exprsChars, writeArguments]
  simp

theorem exprsChars_cons_cons (e e' : Expr) (es : List Expr) :
    exprsChars indent (e :: e' :: es) =
      e.chars indent ++ ([','] ++ ([' '] ++ exprsChars indent (e' :: es))) := by
  rw [exprsChars, writeArguments]
  · simp
  · exact List.cons_ne_nil e' es

theorem exprsChars_append_singleton {es : List Expr} (hes : es ≠ []) (e : Expr) :
    exprsChars indent (es ++ [e]) =
      exprsChars indent es ++ ([','] ++ ([' '] ++ e.chars indent)) := by
  induction es with
  | nil => contradiction
  | cons e' es ih =>
    cases es with
    | nil =>
      rw [List.singleton_append, exprsChars_cons_cons, exprsChars_singleton, exprsChars_singleton]
    | cons e'' es =>
      have hrest := ih (List.cons_ne_nil e'' es)
      rw [List.cons_append] at hrest
      rw [List.cons_append, List.cons_append, exprsChars_cons_cons, hrest, exprsChars_cons_cons]
      simp only [List.append_assoc]

theorem Stmt.chars_empty : (Stmt.empty p).chars indent = [';'] := by
  apply chars_eq
  rw [write]
  simp

theorem Stmt.chars_declare (name : String) (value : Expr) :
    (Stmt.declare name value p).chars indent =
      "var".toList ++ ([' '] ++ (name.toList ++ ([' '] ++ (['='] ++ ([' '] ++
        (value.chars indent ++ [';'])))))) := by
  apply chars_eq
  rw [write]
  simp

theorem Stmt.chars_block (body : List Stmt) :
    (Stmt.block body p).chars indent =
      ['{'] ++ (['\n'] ++ (stmtsChars (indent + 1) body ++ (marginChars indent ++ ['}']))) := by
  apply chars_eq
  rw [write]
  simp

theorem Stmt.chars_returnNull :
    (Stmt.returnNull p).chars indent = "return".toList ++ [';'] := by
  apply chars_eq
  rw [write]
  simp

theorem Stmt.chars_returnValue (value : Expr) :
    (Stmt.returnValue value p).chars indent =
      "return".toList ++ ([' '] ++ (value.chars indent ++ [';'])) := by
  apply chars_eq
  rw [write]
  simp

/-- The body of an `if` or `while` stands on the next line. -/
def Stmt.bodyChars (indent : Nat) (body : Stmt) : List Char :=
  ['\n'] ++ (marginChars (body.bodyIndent indent) ++ body.chars (body.bodyIndent indent))

theorem Stmt.chars_ifThen (condition : Expr) (body : Stmt) :
    (Stmt.ifThen condition body p).chars indent =
      "if".toList ++ (['('] ++ (condition.chars indent ++ ([')'] ++ body.bodyChars indent))) := by
  apply chars_eq
  rw [write]
  simp [bodyChars]

theorem Stmt.chars_ifElse (condition : Expr) (body other : Stmt) :
    (Stmt.ifElse condition body other p).chars indent =
      "if".toList ++ (['('] ++ (condition.chars indent ++ ([')'] ++ (body.bodyChars indent ++
        (['\n'] ++ (marginChars indent ++ ("else".toList ++ other.bodyChars indent))))))) := by
  apply chars_eq
  rw [write]
  simp [bodyChars]

theorem Stmt.chars_whileDo (condition : Expr) (body : Stmt) :
    (Stmt.whileDo condition body p).chars indent =
      "while".toList ++
        (['('] ++ (condition.chars indent ++ ([')'] ++ body.bodyChars indent))) := by
  apply chars_eq
  rw [write]
  simp [bodyChars]

theorem Stmt.chars_expression (value : Expr) :
    (Stmt.expression value p).chars indent = value.chars indent ++ [';'] := by
  apply chars_eq
  rw [write]
  simp

theorem Stmt.chars_assign (target value : Expr) :
    (Stmt.assign target value p).chars indent =
      target.chars indent ++ ([' '] ++ (['='] ++ ([' '] ++ (value.chars indent ++ [';'])))) := by
  apply chars_eq
  rw [write]
  simp

theorem stmtsChars_nil : stmtsChars indent [] = [] := by
  rw [stmtsChars, writeLines]
  simp

theorem stmtsChars_cons (s : Stmt) (ss : List Stmt) :
    stmtsChars indent (s :: ss) =
      marginChars indent ++ (s.chars indent ++ (['\n'] ++ stmtsChars indent ss)) := by
  rw [stmtsChars, writeLines]
  simp

/-- The body of a function follows on the same line. Its own lines are set in as those
of the function if it is a block, and from the first column otherwise. -/
theorem Expr.chars_function (body : Stmt) :
    ∃ indent', (Expr.function body p).chars indent =
      "fun".toList ++ (['('] ++ ([')'] ++ ([' '] ++ body.chars indent'))) := by
  cases body with
  | block ss q =>
    refine ⟨indent, ?_⟩
    rw [Stmt.chars_block, chars, write]
    simp
  | _ =>
    refine ⟨0, ?_⟩
    rw [chars, write]
    · simp [marginChars, Text.margin]
    · simp

end Nodes

end StackScript

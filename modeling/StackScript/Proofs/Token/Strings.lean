import StackScript.Proofs.Token.Respacing

/-!
What stands between the quotes of a string. The text behind a quote is taken apart into plain
characters and backslashes with the character behind them, up to the quote that closes the string
or to the place where it breaks off. Main statements: nothing is wrong with a string iff each of
its parts stands for a character and its quote follows, and then it stands for those characters;
a string that is not closed breaks off in front of a newline or a tab, and one of these stands in
a string only where it is told as a wrong escape.
-/

namespace StackScript

inductive StringPart where
  | plain (c : Char)
  /-- A backslash and the character behind it. -/
  | escape (e : Char)
  deriving DecidableEq

/-- How much of the text behind the parts belongs to the string, what lies behind that, and whether
the string is closed there. -/
inductive StringEnd (quote : Char) : List Char → List Char → Bool → Prop
  | closed (rest : List Char) : StringEnd quote [quote] rest true
  | cut {rest : List Char} (h : ∀ c, rest.head? = some c → c = '\n' ∨ c = '\t') :
      StringEnd quote [] rest false
  /-- A backslash with nothing behind it. -/
  | backslash : StringEnd quote ['\\'] [] false

namespace StringPart

def chars : StringPart → List Char
  | plain c => [c]
  | escape e => ['\\', e]

/-- The characters behind a backslash that stand for something. -/
def escapes : List (Char × Char) :=
  [('\\', '\\'), ('n', '\n'), ('r', '\r'), ('t', '\t'), ('\'', '\''), ('"', '"')]

def meaning? : StringPart → Option Char
  | plain c => some c
  | escape e => escapes.lookup e

/-- Neither closes the string nor breaks it off. -/
def FitsIn (quote : Char) : StringPart → Prop
  | plain c => c ∉ [quote, '\\', '\n', '\t']
  | escape _ => True

def fault? (file : String) (m : Mark) : StringPart → Option Diagnostic
  | plain _ => none
  | escape e =>
    if (escapes.lookup e).isSome then none
    else some (.error (m.position file) .invalidEscape [e.toString])

def spelling (parts : List StringPart) : List Char := parts.flatMap chars

def meaning (parts : List StringPart) : List Char := parts.filterMap meaning?

def faults (file : String) (m : Mark) : List StringPart → Array Diagnostic
  | [] => #[]
  | p :: ps => (p.fault? file m).toArray ++ faults file (p.chars.foldl Mark.after m) ps

@[simp] theorem spelling_cons (p : StringPart) (ps : List StringPart) :
    spelling (p :: ps) = p.chars ++ spelling ps := List.flatMap_cons

end StringPart

open StringPart

/-- The text `cs` behind a quote is made of these parts, of the end of the string and of what lies
behind it. -/
structure IsString (quote : Char) (cs : List Char) (parts : List StringPart)
    (ending rest : List Char) (closed : Bool) : Prop where
  text_eq : cs = spelling parts ++ (ending ++ rest)
  fits : ∀ p ∈ parts, p.FitsIn quote
  ends : StringEnd quote ending rest closed

def quotes : List Char := ['\'', '"']

theorem quote_ne {quote : Char} (h : quote ∈ quotes) :
    quote ≠ '\\' ∧ ¬(quote = '\n' ∨ quote = '\t') := by
  simp only [quotes, List.mem_cons, List.not_mem_nil, or_false] at h
  rcases h with rfl | rfl <;> decide

section Parts

variable {quote : Char} {cs ending rest : List Char} {parts : List StringPart} {closed : Bool}

theorem IsString.cons {p : StringPart} (hp : p.FitsIn quote)
    (h : IsString quote cs parts ending rest closed) :
    IsString quote (p.chars ++ cs) (p :: parts) ending rest closed where
  text_eq := by rw [h.text_eq, spelling_cons, List.append_assoc]
  fits := List.forall_mem_cons.2 ⟨hp, h.fits⟩
  ends := h.ends

theorem IsString.bare (h : StringEnd quote ending rest closed) :
    IsString quote (ending ++ rest) [] ending rest closed where
  text_eq := rfl
  fits := by simp
  ends := h

theorem exists_isString (quote : Char) (cs : List Char) :
    ∃ parts ending rest closed, IsString quote cs parts ending rest closed := by
  -- by the length, since an escape takes off two characters
  induction hlength : cs.length using Nat.strongRecOn generalizing cs with
  | ind length ih =>
    subst hlength
    cases cs with
    | nil => exact ⟨[], [], [], false, .bare (.cut fun c hc => by cases hc)⟩
    | cons c cs =>
      by_cases hquote : c = quote
      · subst c
        exact ⟨[], [quote], cs, true, .bare (.closed cs)⟩
      by_cases hbreak : c = '\n' ∨ c = '\t'
      · refine ⟨[], [], c :: cs, false, .bare (.cut fun d hd => ?_)⟩
        obtain rfl : c = d := Option.some.inj hd
        exact hbreak
      by_cases hescape : c = '\\'
      · subst c
        cases cs with
        | nil => exact ⟨[], ['\\'], [], false, .bare .backslash⟩
        | cons e cs =>
          have hlt : cs.length < ('\\' :: e :: cs).length := by
            simp only [List.length_cons]
            omega
          obtain ⟨parts, ending, rest, closed, h⟩ := ih cs.length hlt cs rfl
          have hescape : (escape e).FitsIn quote := trivial
          exact ⟨escape e :: parts, ending, rest, closed, h.cons hescape⟩
      · obtain ⟨parts, ending, rest, closed, h⟩ := ih cs.length (by simp) cs rfl
        have hplain : (plain c).FitsIn quote := by
          simp only [FitsIn, List.mem_cons, List.not_mem_nil, or_false, not_or]
          exact ⟨hquote, hescape, not_or.1 hbreak⟩
        exact ⟨plain c :: parts, ending, rest, closed, h.cons hplain⟩

/-- A newline or a tab stands among the parts only behind a backslash. -/
theorem escape_mem_of_fits {x : Char} (hx : x = '\n' ∨ x = '\t')
    (hfits : ∀ p ∈ parts, p.FitsIn quote) (h : x ∈ spelling parts) : escape x ∈ parts := by
  obtain ⟨p, hp, hxp⟩ := List.mem_flatMap.1 h
  cases p with
  | plain c =>
    obtain rfl := List.mem_singleton.1 hxp
    have hfit : x ∉ [quote, '\\', '\n', '\t'] := hfits _ hp
    rcases hx with rfl | rfl <;> simp at hfit
  | escape e =>
    simp only [chars, List.mem_cons, List.not_mem_nil, or_false] at hxp
    rcases hxp with rfl | rfl
    · simp at hx
    · exact hp

end Parts

namespace StringPart

variable {file : String} {parts : List StringPart}

theorem faults_eq_empty_iff (m : Mark) :
    faults file m parts = #[] ↔ ∀ p ∈ parts, p.meaning?.isSome = true := by
  induction parts generalizing m with
  | nil => simp [faults]
  | cons p ps ih =>
    rw [faults, Array.append_eq_empty_iff, ih, List.forall_mem_cons]
    refine and_congr_left fun _ => ?_
    cases p with
    | plain c => simp [fault?, meaning?]
    | escape e => simp [fault?, meaning?]

/-- What is told of the parts are their escapes without a meaning. -/
theorem mem_faults {m : Mark} {d : Diagnostic} (h : d ∈ faults file m parts) :
    d.fault = .invalidEscape ∧ ∃ e, escape e ∈ parts ∧ d.arguments = [e.toString] := by
  induction parts generalizing m with
  | nil => simp [faults] at h
  | cons p ps ih =>
    rcases Array.mem_append.1 h with hhead | htail
    · cases p with
      | plain c => simp [fault?] at hhead
      | escape e =>
        obtain ⟨-, rfl⟩ : ¬(escapes.lookup e).isSome = true ∧
            Diagnostic.error (m.position file) .invalidEscape [e.toString] = d := by
          simpa [fault?] using hhead
        exact ⟨rfl, e, List.mem_cons_self, rfl⟩
    · obtain ⟨hfault, e, he, harguments⟩ := ih htail
      exact ⟨hfault, e, List.mem_cons_of_mem _ he, harguments⟩

theorem exists_mem_faults (file : String) (m : Mark) {e : Char} (h : escape e ∈ parts)
    (he : escapes.lookup e = none) :
    ∃ d ∈ faults file m parts, d.fault = .invalidEscape ∧
      d.arguments = [e.toString] := by
  induction parts generalizing m with
  | nil => cases h
  | cons p ps ih =>
    rcases List.mem_cons.1 h with rfl | htail
    · refine ⟨.error (m.position file) .invalidEscape [e.toString], ?_, rfl, rfl⟩
      refine Array.mem_append_left _ ?_
      simp [fault?, he]
    · obtain ⟨d, hd, htold⟩ := ih (p.chars.foldl Mark.after m) htail
      exact ⟨d, Array.mem_append_right _ hd, htold⟩

end StringPart

namespace Lexeme

theorem unescape?_eq (e : Char) : unescape? e = escapes.lookup e := by
  unfold unescape?
  split
  case h_7 hslash hn hr ht hsingle hdouble =>
    simp [escapes, List.lookup_cons, beq_false_of_ne hslash, beq_false_of_ne hn, beq_false_of_ne hr,
      beq_false_of_ne ht, beq_false_of_ne hsingle, beq_false_of_ne hdouble]
  all_goals rfl

variable (file : String) (start m : Mark) (more : Nat) (decoded : List Char)
  (faults : Array Diagnostic) {quote : Char}

theorem readString_invalid (hquote : '\\' ≠ quote) {e : Char} (h : unescape? e = none)
    (cs : List Char) :
    readString file start quote m more decoded faults ('\\' :: e :: cs) =
      readString file start quote ((m.after '\\').after e) (more + 2) decoded
        (faults.push (.error (m.position file) .invalidEscape [e.toString])) cs := by
  conv => lhs; unfold readString
  rw [if_neg (by decide), if_neg hquote, if_pos rfl]
  dsimp only
  rw [h]

theorem readString_part (hquote : quote ∈ quotes) {p : StringPart} (hp : p.FitsIn quote)
    (cs : List Char) :
    readString file start quote m more decoded faults (p.chars ++ cs) =
      readString file start quote (p.chars.foldl Mark.after m) (more + p.chars.length)
        (p.meaning?.toList ++ decoded) (faults ++ (p.fault? file m).toArray) cs := by
  have hslash : '\\' ≠ quote := (quote_ne hquote).1.symm
  cases p with
  | plain c =>
    simp only [FitsIn, List.mem_cons, List.not_mem_nil, or_false, not_or] at hp
    obtain ⟨hclosing, hescape, hnewline, htab⟩ := hp
    have hbreak : ¬(c = '\n' ∨ c = '\t') := not_or.2 ⟨hnewline, htab⟩
    have hfaults : faults ++ (fault? file m (plain c)).toArray = faults := by simp [fault?]
    rw [hfaults]
    exact readString_plain _ _ _ _ _ _ hbreak hclosing hescape cs
  | escape e =>
    cases he : unescape? e with
    | some d =>
      have hlookup : escapes.lookup e = some d := by rw [← unescape?_eq, he]
      have hfaults : faults ++ (fault? file m (escape e)).toArray = faults := by
        simp [fault?, hlookup]
      have hmeaning : (escape e).meaning? = some d := hlookup
      rw [hfaults, hmeaning]
      exact readString_escape _ _ _ _ _ _ hslash he cs
    | none =>
      have hlookup : escapes.lookup e = none := by rw [← unescape?_eq, he]
      have hfaults : faults ++ (fault? file m (escape e)).toArray =
          faults.push (.error (m.position file) .invalidEscape [e.toString]) := by
        simp [fault?, hlookup]
      have hmeaning : (escape e).meaning? = none := hlookup
      rw [hfaults, hmeaning]
      exact readString_invalid _ _ _ _ _ _ hslash he cs

theorem readString_parts (hquote : quote ∈ quotes) {parts : List StringPart}
    (hparts : ∀ p ∈ parts, p.FitsIn quote) (cs : List Char) :
    readString file start quote m more decoded faults (spelling parts ++ cs) =
      readString file start quote ((spelling parts).foldl Mark.after m)
        (more + (spelling parts).length) ((meaning parts).reverse ++ decoded)
        (faults ++ StringPart.faults file m parts) cs := by
  induction parts generalizing m more decoded faults with
  | nil => simp [spelling, meaning, StringPart.faults]
  | cons p ps ih =>
    obtain ⟨hp, hps⟩ := List.forall_mem_cons.1 hparts
    have hmeaning : (meaning (p :: ps)).reverse ++ decoded =
        (meaning ps).reverse ++ (p.meaning?.toList ++ decoded) := by
      unfold meaning
      rw [List.filterMap_cons]
      cases p.meaning? <;> simp
    have hfaults : faults ++ StringPart.faults file m (p :: ps) =
        faults ++ (p.fault? file m).toArray ++
          StringPart.faults file (p.chars.foldl Mark.after m) ps := by
      rw [StringPart.faults, Array.append_assoc]
    rw [spelling_cons, List.append_assoc, readString_part _ _ _ _ _ _ hquote hp, ih _ _ _ _ hps,
      hmeaning, hfaults, List.foldl_append, List.length_append, Nat.add_assoc]

theorem readString_end (hquote : quote ∈ quotes) {ending rest : List Char} {closed : Bool}
    (h : StringEnd quote ending rest closed) :
    readString file start quote m more decoded faults (ending ++ rest) =
      { kind := .string, more := more + ending.length
        literal := some (.string (String.ofList decoded.reverse))
        faults := if closed then faults
          else faults.push (.error (start.position file) .endInString []) } := by
  obtain ⟨hslash, hbreak⟩ := quote_ne hquote
  cases h with
  | closed => exact readString_quote _ _ _ _ _ _ hbreak rest
  | cut hcut =>
    cases rest with
    | nil => rfl
    | cons c rest =>
      rw [List.nil_append]
      unfold readString
      rw [if_pos (hcut c rfl)]
      rfl
  | backslash =>
    rw [List.append_nil]
    unfold readString
    rw [if_neg (by decide), if_neg hslash.symm, if_pos rfl]
    rfl

theorem read_quote (hquote : quote ∈ quotes) (cs : List Char) :
    read file m quote cs = readString file m quote (m.after quote) 0 [] #[] cs := by
  simp only [quotes, List.mem_cons, List.not_mem_nil, or_false] at hquote
  rcases hquote with rfl | rfl <;> rfl

/-- What is found behind a quote, told from the parts of the text there. -/
theorem read_isString (hquote : quote ∈ quotes) {cs ending rest : List Char}
    {parts : List StringPart} {closed : Bool} (h : IsString quote cs parts ending rest closed) :
    read file m quote cs =
      { kind := .string, more := (spelling parts ++ ending).length
        literal := some (.string (String.ofList (meaning parts)))
        faults := StringPart.faults file (m.after quote) parts ++
          if closed then #[] else #[.error (m.position file) .endInString []] } := by
  rw [read_quote _ _ hquote, h.text_eq, readString_parts _ _ _ _ _ _ hquote h.fits,
    readString_end _ _ _ _ _ _ hquote h.ends, List.append_nil, List.reverse_reverse,
    Nat.zero_add, List.length_append]
  cases closed <;> simp

/-- Only a quote starts a string. -/
theorem quote_of_read {first : Char} {cs : List Char}
    (h : (read file m first cs).kind = .string) : first ∈ quotes := by
  by_cases hdigit : first.isDigit = true
  · rw [read_digit hdigit] at h
    unfold readNumber at h
    dsimp only at h
    split at h
    · split at h <;> cases h
    · cases h
  by_cases hletter : isLetter first = true
  · rw [read_letter hletter] at h
    unfold readWord at h
    dsimp only at h
    cases hword : TokenKind.keyword? (String.ofList (first ::
        cs.takeWhile fun c => isLetter c || c.isDigit)) with
    | none =>
      rw [hword] at h
      cases h
    | some kind =>
      rw [hword, Option.getD_some] at h
      subst h
      exact absurd (List.mem_of_find?_eq_some hword) (by decide)
  have htwo {second : Char} {single double : TokenKind} (hsingle : single ≠ .string)
      (hdouble : double ≠ .string) : (oneOrTwo second single double cs).kind ≠ .string := by
    unfold oneOrTwo
    split
    · exact hdouble
    · exact hsingle
  unfold read at h
  split at h
  case h_23 | h_24 => decide
  case h_25 =>
    rw [if_neg hdigit, if_neg hletter] at h
    cases h
  all_goals first
    | cases h
    | exact absurd h (htwo (by decide) (by decide))

end Lexeme

section Tokens

variable {c : Cursor} {gap cs ending rest : List Char} {quote : Char} {parts : List StringPart}
  {closed : Bool}

/-- The token that starts with a quote, told from the parts of the text behind it. -/
theorem IsString.nextToken (h : IsString quote cs parts ending rest closed)
    (hquote : quote ∈ quotes) (hgap : Trivia gap (quote :: cs))
    (hrest : c.rest = gap ++ quote :: cs) :
    c.nextToken =
      (⟨⟨.string, String.ofList (quote :: (spelling parts ++ ending)),
          some (.string (String.ofList (meaning parts))),
          (gap.foldl Mark.after c.mark).position c.file⟩,
        StringPart.faults c.file ((gap.foldl Mark.after c.mark).after quote) parts ++
          if closed then #[]
          else #[.error ((gap.foldl Mark.after c.mark).position c.file) .endInString []]⟩,
        { c with
          mark := (gap ++ quote :: (spelling parts ++ ending)).foldl Mark.after c.mark
          rest }) := by
  have hstop (m : Mark) : Gap.space.skip m (quote :: cs) = (none, m, quote :: cs) := by
    refine Gap.skip_sign ?_ ?_ m
    · simp only [quotes, List.mem_cons, List.not_mem_nil, or_false] at hquote
      rcases hquote with rfl | rfl <;> decide
    · rintro rfl
      exact absurd hquote (by decide)
  have hcs : cs = spelling parts ++ ending ++ rest := by
    rw [h.text_eq, List.append_assoc]
  rw [Cursor.nextToken_of_read hgap hstop hrest (Lexeme.read_isString _ _ hquote h), hcs,
    List.take_left, List.drop_left]

theorem Cursor.exists_quote (h : c.nextToken.1.token.kind = .string) :
    ∃ gap quote cs, quote ∈ quotes ∧ Trivia gap (quote :: cs) ∧ c.rest = gap ++ quote :: cs := by
  have hskipped := Gap.skipped_space c.mark c.rest
  unfold nextToken at h
  generalize hrest : c.rest = ahead at h hskipped
  generalize Gap.space.skip c.mark ahead = result at h hskipped
  cases hskipped with
  | unclosed => cases h
  | @whole gap ahead hgap _ =>
    cases ahead with
    | nil => cases h
    | cons first cs => exact ⟨gap, first, cs, Lexeme.quote_of_read _ _ h, hgap, rfl⟩

end Tokens

section Breaks

variable {quote : Char} {cs ending rest : List Char} {parts : List StringPart} {closed : Bool}

/-- A newline or a tab stands in a string only behind a backslash. -/
theorem IsString.escape_mem (h : IsString quote cs parts ending rest closed)
    (hquote : quote ∈ quotes) {x : Char} (hx : x = '\n' ∨ x = '\t')
    (hmem : x ∈ quote :: (spelling parts ++ ending)) : escape x ∈ parts := by
  have hne : x ≠ quote := by
    rintro rfl
    exact (quote_ne hquote).2 hx
  have hending : x ∉ ending := by
    cases h.ends with
    | closed => simpa using hne
    | cut => simp
    | backslash => rcases hx with rfl | rfl <;> simp
  rcases List.mem_append.1 (List.mem_of_ne_of_mem hne hmem) with hmem | hmem
  · exact escape_mem_of_fits hx h.fits hmem
  · exact absurd hmem hending

end Breaks

/-- Stands for a character between these quotes. -/
structure StringPart.IsItem (quote : Char) (p : StringPart) : Prop where
  fits : p.FitsIn quote
  isSome : p.meaning?.isSome = true

theorem isString_items {quote : Char} {items : List StringPart} {rest : List Char}
    (h : ∀ p ∈ items, p.IsItem quote) :
    IsString quote (spelling items ++ quote :: rest) items [quote] rest true where
  text_eq := rfl
  fits p hp := (h p hp).fits
  ends := .closed rest

/-- Nothing is wrong with a string iff its parts stand for characters and its quote follows. -/
theorem IsString.quiet_iff {quote : Char} {cs ending rest : List Char} {parts : List StringPart}
    {closed : Bool} (h : IsString quote cs parts ending rest closed) (hquote : quote ∈ quotes)
    {c : Cursor} {gap : List Char} (hgap : Trivia gap (quote :: cs))
    (hrest : c.rest = gap ++ quote :: cs) :
    c.nextToken.1.faults = #[] ↔ (∀ p ∈ parts, p.IsItem quote) ∧ closed = true := by
  rw [h.nextToken hquote hgap hrest, Array.append_eq_empty_iff, faults_eq_empty_iff]
  refine and_congr ⟨fun hsome p hp => ⟨h.fits p hp, hsome p hp⟩, fun hitem p hp =>
    (hitem p hp).isSome⟩ ?_
  cases closed <;> simp

/-- A token that starts with a quote has nothing wrong iff items and the quote follow; it is then
what is spelled there and stands for what the items stand for. The spelling of any string is read
as one token that stands for it. -/
theorem Cursor.strings_decode :
    (∀ (c : Cursor) (gap : List Char) (quote : Char) (cs : List Char), quote ∈ quotes →
      Trivia gap (quote :: cs) → c.rest = gap ++ quote :: cs →
      (c.nextToken.1.faults = #[] ↔
        ∃ items rest, (∀ p ∈ items, p.IsItem quote) ∧ cs = spelling items ++ quote :: rest) ∧
      ∀ items rest, (∀ p ∈ items, p.IsItem quote) → cs = spelling items ++ quote :: rest →
        c.nextToken =
          (⟨⟨.string, String.ofList (quote :: (spelling items ++ [quote])),
              some (.string (String.ofList (meaning items))),
              (gap.foldl Mark.after c.mark).position c.file⟩, #[]⟩,
            { c with
              mark := (gap ++ quote :: (spelling items ++ [quote])).foldl Mark.after c.mark
              rest })) ∧
    ∀ (file s : String), ∃ t stop,
      TokenStream.ofText file (Value.string s).literalText = ⟨[⟨t, #[]⟩], stop⟩ ∧
        stop.faults = #[] ∧ t.kind = .string ∧ t.literal = some (.string s) := by
  refine ⟨fun c gap quote cs hquote hgap hrest => ⟨⟨fun hquiet => ?_, ?_⟩, ?_⟩, fun file s => ?_⟩
  · obtain ⟨parts, ending, rest, closed, h⟩ := exists_isString quote cs
    obtain ⟨hitems, rfl⟩ := (h.quiet_iff hquote hgap hrest).1 hquiet
    have htext := h.text_eq
    cases h.ends
    exact ⟨parts, rest, hitems, htext⟩
  · rintro ⟨items, rest, hitems, rfl⟩
    exact ((isString_items hitems).quiet_iff hquote hgap hrest).2 ⟨hitems, rfl⟩
  · rintro items rest hitems rfl
    have hnone (m : Mark) : StringPart.faults c.file m items = #[] :=
      (faults_eq_empty_iff m).2 fun p hp => (hitems p hp).isSome
    rw [(isString_items hitems).nextToken hquote hgap hrest, hnone]
    rfl
  · have hspells : Spells Anything (Value.string s).literalText.toList
        (IsLiteral .string (.string s)) := .string s
    obtain ⟨ts, ⟨t, rfl, hkind, hliteral⟩, hahead, hstop⟩ := hspells.ofText trivial file
    generalize TokenStream.ofText file (Value.string s).literalText = tokens at hahead hstop
    exact ⟨t, tokens.stop, congrArg (TokenStream.mk · tokens.stop) hahead, hstop, hkind, hliteral⟩

/-- Both kinds of quotes and an escape, behind a space and in front of more text; and one backslash,
spelled. -/
theorem Cursor.strings_decode_quotes :
    let c := Cursor.ofText "f" " '\"it\\'s\"'+"
    (∃ stop, c.nextToken =
      (⟨⟨.string, "'\"it\\'s\"'", some (.string "\"it's\""), ⟨"f", 1, 2⟩⟩, #[]⟩,
        { c with mark := stop, rest := ['+'] })) ∧
    ∃ t stop, TokenStream.ofText "f" "\"\\\\\"" = ⟨[⟨t, #[]⟩], stop⟩ ∧
      t.literal = some (.string "\\") := by
  obtain ⟨hread, hspelled⟩ := strings_decode
  have hgap : Trivia [' '] "'\"it\\'s\"'+".toList := .space (by decide) (.none _)
  obtain ⟨-, hitems⟩ := hread (.ofText "f" " '\"it\\'s\"'+") [' '] '\'' _ (by decide) hgap rfl
  have hitem (p : StringPart)
      (hp : p ∈ [plain '"', plain 'i', plain 't', escape '\'', plain 's', plain '"']) :
      p.IsItem '\'' := by
    simp only [List.mem_cons, List.not_mem_nil, or_false] at hp
    rcases hp with rfl | rfl | rfl | rfl | rfl | rfl
    all_goals exact ⟨by simp [FitsIn], rfl⟩
  obtain ⟨t, stop, hstream, -, -, hliteral⟩ := hspelled "f" "\\"
  exact ⟨⟨_, hitems _ _ hitem rfl⟩, t, stop, hstream, hliteral⟩

/-- A newline or a tab stands in a string only where it is told as a wrong escape. A string that
comes to one that is not behind a backslash breaks off in front of it. -/
theorem Cursor.strings_break_off (c : Cursor) :
    (c.nextToken.1.token.kind = .string → ∀ x, x = '\n' ∨ x = '\t' →
      (x ∈ c.nextToken.1.token.lexeme.toList ↔ ∃ d ∈ c.nextToken.1.faults,
        d.fault = .invalidEscape ∧ d.arguments = [x.toString])) ∧
    ∀ gap quote parts x rest, quote ∈ quotes → (∀ p ∈ parts, p.FitsIn quote) →
      (x = '\n' ∨ x = '\t') → Trivia gap (quote :: (spelling parts ++ x :: rest)) →
      c.rest = gap ++ quote :: (spelling parts ++ x :: rest) →
      c.nextToken.1.token.kind = .string ∧
        c.nextToken.1.token.lexeme = String.ofList (quote :: spelling parts) ∧
        c.nextToken.2.rest = x :: rest ∧
        .error c.nextToken.1.token.position .endInString [] ∈ c.nextToken.1.faults := by
  refine ⟨fun hkind x hx => ?_, fun gap quote parts x rest hquote hparts hx hgap hrest => ?_⟩
  · obtain ⟨gap, quote, cs, hquote, hgap, hrest⟩ := exists_quote hkind
    obtain ⟨parts, ending, rest, closed, h⟩ := exists_isString quote cs
    rw [h.nextToken hquote hgap hrest, String.toList_ofList]
    have hlookup : escapes.lookup x = none := by
      rcases hx with rfl | rfl <;> rfl
    constructor
    · intro hmem
      have hescape := h.escape_mem hquote hx hmem
      obtain ⟨d, hd, htold⟩ := exists_mem_faults c.file
        ((gap.foldl Mark.after c.mark).after quote) hescape hlookup
      exact ⟨d, Array.mem_append_left _ hd, htold⟩
    · rintro ⟨d, hd, hfault, harguments⟩
      have hunclosed : d ∉ (if closed then #[] else
          #[.error ((gap.foldl Mark.after c.mark).position c.file) .endInString []] :
            Array Diagnostic) := by
        cases closed with
        | true => simp
        | false =>
          intro hmem
          rw [Array.mem_singleton.1 hmem] at hfault
          cases hfault
      obtain ⟨-, e, he, hdarguments⟩ :=
        mem_faults ((Array.mem_append.1 hd).resolve_right hunclosed)
      obtain rfl : e = x := by simpa [hdarguments] using harguments
      refine List.mem_cons_of_mem _ (List.mem_append_left _ ?_)
      exact List.mem_flatMap.2 ⟨escape e, he, by simp [chars]⟩
  · have hcut : StringEnd quote [] (x :: rest) false := .cut fun d hd => by
      obtain rfl : x = d := Option.some.inj hd
      exact hx
    have h : IsString quote (spelling parts ++ x :: rest) parts [] (x :: rest) false :=
      ⟨rfl, hparts, hcut⟩
    rw [h.nextToken hquote hgap hrest, List.append_nil]
    exact ⟨rfl, rfl, rfl, Array.mem_append_right _ (by simp)⟩

/-- A string with a newline behind a backslash, which breaks off in front of a tab. -/
theorem Cursor.strings_break_off_escaped :
    let c := Cursor.ofText "f" "'a\\\nb\tc'"
    c.nextToken.1.token.lexeme = "'a\\\nb" ∧ c.nextToken.2.rest = "\tc'".toList ∧
      (∃ d ∈ c.nextToken.1.faults, d.fault = .invalidEscape ∧ d.arguments = ["\n"]) ∧
      .error ⟨"f", 1, 1⟩ .endInString [] ∈ c.nextToken.1.faults := by
  obtain ⟨hescaped, hcut⟩ := strings_break_off (.ofText "f" "'a\\\nb\tc'")
  have hfits : ∀ p ∈ [plain 'a', escape '\n', plain 'b'], p.FitsIn '\'' := by
    simp [FitsIn]
  obtain ⟨hkind, hlexeme, hrest, hunclosed⟩ := hcut [] '\'' [plain 'a', escape '\n', plain 'b'] '\t'
    "c'".toList (by decide) hfits (.inr rfl) (.none _) rfl
  have hnewline : '\n' ∈ "'a\\\nb".toList := by decide
  refine ⟨hlexeme, hrest, (hescaped hkind '\n' (.inl rfl)).1 ?_, hunclosed⟩
  rw [hlexeme]
  exact hnewline

/-- So a string can go on in the next line. -/
theorem TokenStream.string_over_lines :
    ¬∀ (file text : String), ∀ t ∈ (TokenStream.ofText file text).words, t.kind = .string →
      '\n' ∉ t.lexeme.toList ∧ '\t' ∉ t.lexeme.toList := by
  intro h
  have hwords : (TokenStream.ofText "f" "'a\\\nb").words =
      [⟨.string, "'a\\\nb", some (.string "ab"), ⟨"f", 1, 1⟩⟩] := by
    decide +kernel
  have hbreak := h "f" "'a\\\nb" _ (hwords ▸ List.mem_singleton_self _) rfl
  exact absurd hbreak.1 (by decide)

end StackScript

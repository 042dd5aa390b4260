import SchemaDecl.Json.Reader

/-! String literals of JSON text, glyph by glyph. A glyph is what the reader takes
off a literal at once: a character that stands for itself, a backslash with the
sign of a character, or a backslash with the four digits of a number. A text is
read as a string just if it is a quote, glyphs and another quote, and the string
holds a character for each glyph, but only one for the two halves of a surrogate
pair that stand side by side. -/

namespace SchemaDecl.Json

namespace Reader

/-- One step through a literal. -/
inductive Glyph
  | plain (c : Char) (quiet : c ≠ '"' ∧ c ≠ '\\' ∧ ¬ c.toNat < 32)
  | escaped (sign c : Char) (read : plainEscape? sign = some c)
  | code (digits : List Char) (n : Nat) (read : hexFour? digits = some n)

namespace Glyph

def text : Glyph → List Char
  | plain c _ => [c]
  | escaped sign _ _ => ['\\', sign]
  | code digits _ _ => '\\' :: 'u' :: digits

/-- The number of a character, or of one half of a surrogate pair. -/
def number : Glyph → Nat
  | plain c _ => c.toNat
  | escaped _ c _ => c.toNat
  | code _ n _ => n

end Glyph

def glyphText (gs : List Glyph) : List Char := gs.flatMap Glyph.text

theorem glyphText_append (gs gs' : List Glyph) :
    glyphText (gs ++ gs') = glyphText gs ++ glyphText gs' := List.flatMap_append

def isPair (n m : Nat) : Bool := isHighSurrogate n && isLowSurrogate m

def ofPair (n m : Nat) : Char := toChar (0x10000 + (n - 0xd800) * 0x400 + (m - 0xdc00))

/-- The characters that the numbers of the glyphs of a literal make up. -/
def decode : List Nat → List Char
  | [] => []
  | [n] => [toChar n]
  | n :: m :: rest =>
    if isPair n m then ofPair n m :: decode rest else toChar n :: decode (m :: rest)

/-! Numbers. -/

theorem toChar_toNat (c : Char) : toChar c.toNat = c := dif_pos c.valid

theorem not_surrogate (c : Char) :
    isHighSurrogate c.toNat = false ∧ isLowSurrogate c.toNat = false := by
  have hvalid : c.toNat < 0xd800 ∨ 0xdfff < c.toNat ∧ c.toNat < 0x110000 := c.valid
  simp only [isHighSurrogate, isLowSurrogate, Bool.and_eq_false_iff, decide_eq_false_iff_not]
  omega

/-- The number makes no pair with the first of the others. -/
def Alone (n : Nat) (others : List Nat) : Prop := ∀ m ∈ others.head?, isPair n m = false

theorem alone_char (c : Char) (others : List Nat) : Alone c.toNat others := by
  intro m _
  rw [isPair, (not_surrogate c).1, Bool.false_and]

theorem decode_alone {n : Nat} {others : List Nat} (h : Alone n others) :
    decode (n :: others) = toChar n :: decode others := by
  cases others with
  | nil => rfl
  | cons m rest => rw [decode, if_neg (by simp [h m rfl])]

theorem decode_char (c : Char) (others : List Nat) :
    decode (c.toNat :: others) = c :: decode others := by
  rw [decode_alone (alone_char c others), toChar_toNat]

theorem decode_chars (cs : List Char) : decode (cs.map Char.toNat) = cs := by
  induction cs with
  | nil => rfl
  | cons c cs ih => rw [List.map_cons, decode_char, ih]

/-- A number in front adds a character, unless it makes a pair. -/
theorem length_decode_cons (n : Nat) (others : List Nat) :
    (decode (n :: others)).length =
      (decode others).length + if others.head?.any (isPair n) then 0 else 1 := by
  cases others with
  | nil => rfl
  | cons m rest =>
    by_cases hpair : isPair n m = true
    · have hlow : Alone m rest := by
        intro k _
        have hm : isHighSurrogate m = false := by
          simp only [isPair, isHighSurrogate, isLowSurrogate, Bool.and_eq_true,
            decide_eq_true_eq] at hpair
          rw [isHighSurrogate, decide_eq_false (Nat.not_lt.2 hpair.2.1), Bool.and_false]
        rw [isPair, hm, Bool.false_and]
      rw [decode, if_pos hpair, decode_alone hlow]
      simp [hpair]
    · rw [decode, if_neg hpair]
      simp [hpair]

/-! One glyph read. -/

theorem length_of_hexFour? {digits : List Char} {n : Nat} (h : hexFour? digits = some n) :
    digits.length = 4 := by
  unfold hexFour? at h
  split at h
  · rfl
  · cases h

theorem sign_ne_u {sign c : Char} (h : plainEscape? sign = some c) : sign ≠ 'u' := by
  rintro rfl
  cases h

theorem codePoint_eq {digits : List Char} {n : Nat} (h : hexFour? digits = some n)
    {rest : List Char} (hrest : rest ≠ []) :
    codePoint ('u' :: (digits ++ rest)) =
      if isHighSurrogate n && 6 < rest.length && ['\\', 'u'].isPrefixOf rest then
        match hexFour? ((rest.drop 2).take 4) with
        | none => .error ⟨.codePoint, rest.drop 1⟩
        | some m =>
          if isLowSurrogate m then .ok (ofPair n m, rest.drop 6) else .ok (toChar n, rest)
      else .ok (toChar n, rest) := by
  have htake : (digits ++ rest).take 4 = digits := List.take_left' (length_of_hexFour? h)
  have hdrop : (digits ++ rest).drop 4 = rest := List.drop_left' (length_of_hexFour? h)
  simp only [codePoint, List.drop_one, List.tail_cons, htake, hdrop, h, ofPair]
  refine (if_neg ?_).trans rfl
  simpa using hrest

theorem codePoint_pair {digits digits' : List Char} {n m : Nat} (h : hexFour? digits = some n)
    (h' : hexFour? digits' = some m) (hpair : isPair n m = true) {rest : List Char}
    (hrest : rest ≠ []) :
    codePoint ('u' :: (digits ++ '\\' :: 'u' :: (digits' ++ rest))) =
      .ok (ofPair n m, rest) := by
  obtain ⟨hhigh, hlow⟩ := Bool.and_eq_true_iff.1 hpair
  have hlength := length_of_hexFour? h'
  have hmore : 6 < ('\\' :: 'u' :: (digits' ++ rest)).length := by
    have hpos := List.length_pos_iff.2 hrest
    simp only [List.length_cons, List.length_append]
    omega
  have htake : (digits' ++ rest).take 4 = digits' := List.take_left' hlength
  have hdrop : (digits' ++ rest).drop 4 = rest := List.drop_left' hlength
  rw [codePoint_eq h (List.cons_ne_nil _ _),
    if_pos (by rw [hhigh, decide_eq_true hmore]; simp [List.isPrefixOf])]
  simp [htake, hdrop, h', hlow]

theorem codePoint_alone {digits : List Char} {n : Nat} (h : hexFour? digits = some n)
    {gs : List Glyph} (halone : Alone n (gs.map Glyph.number)) (rest : List Char) :
    codePoint ('u' :: (digits ++ (glyphText gs ++ '"' :: rest))) =
      .ok (toChar n, glyphText gs ++ '"' :: rest) := by
  rw [codePoint_eq h (by simp)]
  cases gs with
  | nil => simp [glyphText, List.isPrefixOf]
  | cons g gs =>
    have htext : glyphText (g :: gs) ++ '"' :: rest =
        g.text ++ (glyphText gs ++ '"' :: rest) := by
      simp [glyphText]
    rw [htext]
    cases g with
    | plain c quiet => simp [Glyph.text, List.isPrefixOf, Ne.symm quiet.2.1]
    | escaped sign c read => simp [Glyph.text, List.isPrefixOf, Ne.symm (sign_ne_u read)]
    | code digits' m read =>
      have hpair : isPair n m = false := halone m rfl
      have htake : (digits' ++ (glyphText gs ++ '"' :: rest)).take 4 = digits' :=
        List.take_left' (length_of_hexFour? read)
      split
      · rename_i hboth
        have hhigh : isHighSurrogate n = true := by
          simp only [Bool.and_eq_true] at hboth
          exact hboth.1.1
        have hlow : isLowSurrogate m = false := by
          rwa [isPair, hhigh, Bool.true_and] at hpair
        simp [Glyph.text, htake, read, hlow]
      · rfl

section
variable (start : List Char) (fuel : Nat) (acc rest : List Char)

theorem stringBody_glyph (g : Glyph) {gs : List Glyph}
    (halone : Alone g.number (gs.map Glyph.number)) :
    stringBody start (fuel + 1) acc (g.text ++ (glyphText gs ++ '"' :: rest)) =
      stringBody start fuel (toChar g.number :: acc) (glyphText gs ++ '"' :: rest) := by
  cases g with
  | plain c quiet =>
    obtain ⟨hquote, hslash, hcontrol⟩ := quiet
    simp [Glyph.text, Glyph.number, toChar_toNat, stringBody, hquote, hslash, hcontrol]
  | escaped sign c read =>
    have hcode : sign ≠ 'u' := sign_ne_u read
    simp [Glyph.text, Glyph.number, toChar_toNat, stringBody, read]
  | code digits n read =>
    simp [Glyph.text, Glyph.number, stringBody, codePoint_alone read halone, bind, Except.bind]

theorem stringBody_pair (g g' : Glyph) (hpair : isPair g.number g'.number = true)
    (gs : List Glyph) :
    stringBody start (fuel + 1) acc (g.text ++ (g'.text ++ (glyphText gs ++ '"' :: rest))) =
      stringBody start fuel (ofPair g.number g'.number :: acc) (glyphText gs ++ '"' :: rest) := by
  obtain ⟨hhigh, hlow⟩ := Bool.and_eq_true_iff.1 hpair
  -- only numbers in digits are surrogates
  cases g with
  | plain c quiet => simp [Glyph.number, not_surrogate] at hhigh
  | escaped sign c read => simp [Glyph.number, not_surrogate] at hhigh
  | code digits n read =>
    cases g' with
    | plain c quiet => simp [Glyph.number, not_surrogate] at hlow
    | escaped sign c read => simp [Glyph.number, not_surrogate] at hlow
    | code digits' m read' =>
      have hbehind : glyphText gs ++ '"' :: rest ≠ [] := by simp
      have hread := codePoint_pair read read' hpair hbehind
      simp [Glyph.text, Glyph.number, stringBody, hread, bind, Except.bind]
end

/-! Whole literals. -/

theorem stringBody_glyphs (start rest : List Char) {gs : List Glyph} {fuel : Nat}
    (hfuel : gs.length < fuel) (acc : List Char) :
    stringBody start fuel acc (glyphText gs ++ '"' :: rest) =
      .ok (String.ofList (acc.reverse ++ decode (gs.map Glyph.number)), rest) := by
  induction fuel generalizing gs acc with
  | zero => exact absurd hfuel (Nat.not_lt_zero _)
  | succ fuel ih =>
    cases gs with
    | nil => simp [glyphText, stringBody, decode]
    | cons g gs =>
      have hless : gs.length < fuel := Nat.lt_of_succ_lt_succ hfuel
      have htext : glyphText (g :: gs) ++ '"' :: rest =
          g.text ++ (glyphText gs ++ '"' :: rest) := by
        simp [glyphText]
      rw [htext]
      by_cases halone : Alone g.number (gs.map Glyph.number)
      · rw [stringBody_glyph start fuel acc rest g halone, ih hless, List.map_cons,
          decode_alone halone]
        simp
      · cases gs with
        | nil => exact absurd (by simp [Alone]) halone
        | cons g' gs =>
          have hpair : isPair g.number g'.number = true := by simpa [Alone] using halone
          have htwo : glyphText (g' :: gs) ++ '"' :: rest =
              g'.text ++ (glyphText gs ++ '"' :: rest) := by
            simp [glyphText]
          rw [htwo, stringBody_pair start fuel acc rest g g' hpair gs,
            ih (Nat.lt_of_succ_lt hless)]
          simp [decode, hpair]

/-- What is read of the digits of a number is one glyph, or the two of a pair. -/
theorem glyphs_of_codePoint {cs rest : List Char} {x : Char}
    (h : codePoint ('u' :: cs) = .ok (x, rest)) :
    ∃ gs, '\\' :: 'u' :: cs = glyphText gs ++ rest := by
  have hcs : cs.take 4 ++ cs.drop 4 = cs := List.take_append_drop 4 cs
  simp only [codePoint, List.drop_one, List.tail_cons] at h
  split at h
  · cases h
  · rename_i n hn
    have hone : '\\' :: 'u' :: cs = glyphText [.code (cs.take 4) n hn] ++ cs.drop 4 := by
      simp [glyphText, Glyph.text]
    split at h
    · cases h
    · split at h
      · rename_i hboth
        split at h
        · cases h
        · rename_i m hm
          split at h
          · obtain ⟨-, rfl⟩ := Prod.mk.inj (Except.ok.inj h)
            obtain ⟨tail, htail⟩ : ['\\', 'u'] <+: cs.drop 4 := by
              simp only [Bool.and_eq_true] at hboth
              exact List.isPrefixOf_iff_prefix.1 hboth.2
            rw [← htail] at hm ⊢
            refine ⟨[.code (cs.take 4) n hn, .code (tail.take 4) m hm], ?_⟩
            rw [hone, ← htail]
            simp [glyphText, Glyph.text]
          · obtain ⟨-, rfl⟩ := Prod.mk.inj (Except.ok.inj h)
            exact ⟨_, hone⟩
      · obtain ⟨-, rfl⟩ := Prod.mk.inj (Except.ok.inj h)
        exact ⟨_, hone⟩

theorem glyphs_of_stringBody {start : List Char} {fuel : Nat} {acc cs rest : List Char}
    {s : String} (h : stringBody start fuel acc cs = .ok (s, rest)) :
    ∃ gs, cs = glyphText gs ++ '"' :: rest := by
  have more : ∀ (gs : List Glyph) {front cs : List Char}, front = glyphText gs →
      (∃ gs, cs = glyphText gs ++ '"' :: rest) →
      ∃ gs, front ++ cs = glyphText gs ++ '"' :: rest := by
    rintro gs front cs rfl ⟨gs', rfl⟩
    exact ⟨gs ++ gs', by rw [glyphText_append, List.append_assoc]⟩
  induction fuel generalizing acc cs with
  | zero => cases h
  | succ fuel ih =>
    cases cs with
    | nil => cases h
    | cons c cs =>
      simp only [stringBody] at h
      split at h
      · rename_i hquote
        obtain ⟨-, rfl⟩ := Prod.mk.inj (Except.ok.inj h)
        exact ⟨[], by simp [glyphText, hquote]⟩
      · rename_i hquote
        split at h
        · rename_i hslash
          subst hslash
          split at h
          · cases h
          · rename_i cs
            cases hcode : codePoint ('u' :: cs) with
            | error stop => simp [hcode, bind, Except.bind] at h
            | ok p =>
              simp only [hcode, bind, Except.bind] at h
              obtain ⟨gs, hgs⟩ := glyphs_of_codePoint hcode
              rw [hgs]
              exact more gs rfl (ih h)
          · rename_i sign cs hsign
            split at h
            · rename_i x hx
              exact more [.escaped sign x hx] rfl (ih h)
            · cases h
        · rename_i hslash
          split at h
          · cases h
          · rename_i hcontrol
            exact more [.plain c ⟨hquote, hslash, hcontrol⟩] rfl (ih h)

/-! The first glyph of a text. -/

theorem exists_plain {gs : List Glyph} {c : Char} {tail : List Char}
    (h : glyphText gs = c :: tail) (hc : c ≠ '\\') :
    ∃ quiet gs', gs = .plain c quiet :: gs' ∧ glyphText gs' = tail := by
  cases gs with
  | nil => cases h
  | cons g gs =>
    rw [glyphText, List.flatMap_cons] at h
    cases g with
    | plain d quiet =>
      obtain ⟨rfl, htail⟩ := List.cons.inj h
      exact ⟨quiet, gs, rfl, htail⟩
    | escaped sign d read => exact absurd (List.cons.inj h).1.symm hc
    | code digits n read => exact absurd (List.cons.inj h).1.symm hc

theorem exists_escaped {gs : List Glyph} {sign : Char} {tail : List Char}
    (h : glyphText gs = '\\' :: sign :: tail) (hsign : sign ≠ 'u') :
    ∃ c read gs', gs = .escaped sign c read :: gs' ∧ glyphText gs' = tail := by
  cases gs with
  | nil => cases h
  | cons g gs =>
    rw [glyphText, List.flatMap_cons] at h
    cases g with
    | plain d quiet => exact absurd (List.cons.inj h).1 quiet.2.1
    | escaped sign' c read =>
      obtain ⟨rfl, htail⟩ := List.cons.inj (List.cons.inj h).2
      exact ⟨c, read, gs, rfl, htail⟩
    | code digits n read =>
      exact absurd (List.cons.inj (List.cons.inj h).2).1.symm hsign

theorem length_le_glyphText (gs : List Glyph) : gs.length ≤ (glyphText gs).length := by
  induction gs with
  | nil => exact Nat.le_refl _
  | cons g gs ih =>
    have hone : 0 < g.text.length := by cases g <;> simp [Glyph.text]
    rw [glyphText, List.flatMap_cons, ← glyphText, List.length_append, List.length_cons]
    omega

/-- A string is read just if glyphs and a quote follow the opening quote, and it is what the
numbers of the glyphs make up. -/
theorem string_eq_ok_iff {cs rest : List Char} {s : String} :
    string ('"' :: cs) = .ok (s, rest) ↔
      ∃ gs, cs = glyphText gs ++ '"' :: rest ∧
        s = String.ofList (decode (gs.map Glyph.number)) := by
  have hread : ∀ (gs : List Glyph) (rest : List Char),
      string ('"' :: (glyphText gs ++ '"' :: rest)) =
        .ok (String.ofList (decode (gs.map Glyph.number)), rest) := by
    intro gs rest
    have hfuel : gs.length < ('"' :: (glyphText gs ++ '"' :: rest)).length + 1 := by
      have hle := length_le_glyphText gs
      simp only [List.length_cons, List.length_append]
      omega
    rw [string, List.drop_one, List.tail_cons, stringBody_glyphs _ rest hfuel]
    rfl
  constructor
  · intro h
    have hbody : stringBody ('"' :: cs) (('"' :: cs).length + 1) [] cs = .ok (s, rest) := h
    obtain ⟨gs, rfl⟩ := glyphs_of_stringBody hbody
    refine ⟨gs, rfl, ?_⟩
    rw [hread] at h
    exact (Prod.mk.inj (Except.ok.inj h)).1.symm
  · rintro ⟨gs, rfl, rfl⟩
    exact hread gs rest

end Reader

/-- A text that is one string from its first quote to its last, and the string. -/
structure Literal where
  text : List Char
  value : String
  opened : text.head? = some '"'
  read : Reader.string text = .ok (value, [])

namespace Literal

open Reader

def ofGlyphs (gs : List Glyph) : Literal where
  text := '"' :: (glyphText gs ++ ['"'])
  value := String.ofList (decode (gs.map Glyph.number))
  opened := rfl
  read := string_eq_ok_iff.2 ⟨gs, rfl, rfl⟩

theorem exists_glyphs (l : Literal) : ∃ gs, l = ofGlyphs gs := by
  obtain ⟨text, value, opened, read⟩ := l
  obtain ⟨cs, rfl⟩ := List.head?_eq_some_iff.1 opened
  obtain ⟨gs, rfl, rfl⟩ := string_eq_ok_iff.1 read
  exact ⟨gs, rfl⟩

/-- A literal is read the same in front of any text. -/
theorem string_append (l : Literal) (rest : List Char) :
    string (l.text ++ rest) = .ok (l.value, rest) := by
  obtain ⟨gs, rfl⟩ := l.exists_glyphs
  have htext : (ofGlyphs gs).text ++ rest = '"' :: (glyphText gs ++ '"' :: rest) := by
    simp [ofGlyphs]
  rw [htext]
  exact string_eq_ok_iff.2 ⟨gs, rfl, rfl⟩

theorem exists_of_string {cs rest : List Char} {s : String}
    (h : string ('"' :: cs) = .ok (s, rest)) :
    ∃ l : Literal, '"' :: cs = l.text ++ rest ∧ l.value = s := by
  obtain ⟨gs, rfl, rfl⟩ := string_eq_ok_iff.1 h
  exact ⟨ofGlyphs gs, by simp [ofGlyphs], rfl⟩

end Literal

end SchemaDecl.Json

import HeaderReflection.Attribute.Reader

/-! # How attribute lists are written

A value can be written in many ways: integers in decimal or in hexadecimal, strings bare or in quotes of
either kind with some characters escaped, keys likewise, members with `=` or `:` or without a value, with any
blanks between all of these and a comma at the end or not.  `WritesMembers t m` says that the text `t` is one
of the ways to write the members `m`.  Two kinds of words are left out: decimal fractions, because what they
denote is rounded, and decimal integers with more than `maxDigits` digits, which denote nothing at all.

## Main definitions

* `WritesInteger`, `IsBare`, `WritesQuoted`: words and quoted strings
* `IsLiteralWord`: words that a bare string may not be
* `WritesValue`, `WritesItems`, `WritesMember`, `WritesMembers`: values and their parts, by mutual recursion -/

namespace HeaderReflection.Attribute

open Text

/-! ### Words -/

/-- The sign in front of a number, which may be left out. -/
def IsSign (sign : Option Char) : Prop := sign = none ∨ sign = some '+' ∨ sign = some '-'

/-- An integer as it is written: behind a sign, decimal digits, of which there may be only so many, or
hexadecimal ones. -/
inductive WritesInteger : List Char → Int → Prop where
  | decimal {sign : Option Char} {ds : List Char} (hsign : IsSign sign) (hne : ds ≠ [])
      (hds : ∀ c ∈ ds, isDigit c = true) (hlength : ds.length ≤ maxDigits) :
      WritesInteger (sign.toList ++ ds) (signed sign (numeral 10 ds))
  | hexadecimal {sign : Option Char} {x : Char} {ds : List Char} (hsign : IsSign sign) (hx : x = 'x' ∨ x = 'X')
      (hne : ds ≠ []) (hds : ∀ c ∈ ds, isHexDigit c = true) :
      WritesInteger (sign.toList ++ '0' :: x :: ds) (signed sign (numeral 16 ds))

/-- The end of a decimal fraction: an exponent, or nothing. -/
inductive WritesExponent : List Char → Prop where
  | none : WritesExponent []
  | some {e : Char} {sign : Option Char} {ds : List Char} (he : e = 'e' ∨ e = 'E') (hsign : IsSign sign)
      (hne : ds ≠ []) (hds : ∀ c ∈ ds, isDigit c = true) : WritesExponent (e :: (sign.toList ++ ds))

/-- A decimal fraction as it is written: digits around a point, on one side of it at least. -/
inductive WritesFraction : List Char → Prop where
  | mk {sign : Option Char} {whole part e : List Char} (hsign : IsSign sign)
      (hwhole : ∀ c ∈ whole, isDigit c = true) (hpart : ∀ c ∈ part, isDigit c = true)
      (hne : whole ≠ [] ∨ part ≠ []) (he : WritesExponent e) :
      WritesFraction (sign.toList ++ (whole ++ '.' :: (part ++ e)))

/-- The word denotes something else than the string that it is, or nothing. -/
inductive IsLiteralWord : List Char → Prop where
  | null : IsLiteralWord "null".toList
  | bool (b : Bool) : IsLiteralWord (toString b).toList
  | integer {w : List Char} {n : Int} (h : WritesInteger w n) : IsLiteralWord w
  | overlong {sign : Option Char} {ds : List Char} (hsign : IsSign sign) (hds : ∀ c ∈ ds, isDigit c = true)
      (hlength : maxDigits < ds.length) : IsLiteralWord (sign.toList ++ ds)
  | fraction {w : List Char} (h : WritesFraction w) : IsLiteralWord w

/-- Characters of a bare string between double colons. -/
def isBareChar (c : Char) : Bool := isAsciiAlphanumeric c || c == '_' || c == '.'

/-- A string that needs no quotes: runs of letters, digits, underscores and points, joined by double colons,
that denote nothing else. -/
structure IsBare (w : List Char) : Prop where
  ne_nil : w ≠ []
  runs : ∃ runs : List (List Char), (∀ r ∈ runs, ∀ c ∈ r, isBareChar c = true) ∧
    w = "::".toList.intercalate runs
  isString : ¬IsLiteralWord w

/-! ### Quoted strings -/

/-- The characters that are written as a letter or digit behind a backslash. -/
def namedEscapes : List (Char × Char) := [('n', '\n'), ('t', '\t'), ('r', '\r'), ('0', '\x00')]

/-- Characters as they are written between quotes `q`. -/
inductive WritesChars (q : Char) : List Char → List Char → Prop where
  | nil : WritesChars q [] []
  | plain {c : Char} {t s : List Char} (hq : c ≠ q) (hb : c ≠ '\\') (h : WritesChars q t s) :
      WritesChars q (c :: t) (c :: s)
  | escaped {c : Char} {t s : List Char} (hc : c = q ∨ c = '\\') (h : WritesChars q t s) :
      WritesChars q ('\\' :: c :: t) (c :: s)
  | named {e c : Char} {t s : List Char} (hc : (e, c) ∈ namedEscapes) (h : WritesChars q t s) :
      WritesChars q ('\\' :: e :: t) (c :: s)

/-- A string as it is written in quotes. -/
inductive WritesQuoted : List Char → List Char → Prop where
  | mk {q : Char} {t s : List Char} (hq : isQuote q = true) (h : WritesChars q t s) :
      WritesQuoted (q :: (t ++ [q])) s

/-- A key as it is written: bare if it is a word, or in quotes. -/
inductive WritesKey : List Char → String → Prop where
  | bare {t : List Char} (hne : t ≠ []) (ht : ∀ c ∈ t, isKeyChar c = true) : WritesKey t (String.ofList t)
  | quoted {t s : List Char} (h : WritesQuoted t s) : WritesKey t (String.ofList s)

/-! ### Values -/

mutual

/-- A value as it is written, without blanks around it. -/
inductive WritesValue : List Char → Value → Prop where
  | null : WritesValue "null".toList .null
  | bool (b : Bool) : WritesValue (toString b).toList (.bool b)
  | integer {t : List Char} {n : Int} (h : WritesInteger t n) : WritesValue t (.int n)
  | quoted {t s : List Char} (h : WritesQuoted t s) : WritesValue t (.str (String.ofList s))
  | bare {t : List Char} (h : IsBare t) : WritesValue t (.str (String.ofList t))
  | array {t : List Char} {vs : List Value} (h : WritesItems t vs) : WritesValue ('[' :: (t ++ [']'])) (.array vs)
  | object {t : List Char} {m : Bag} (h : WritesMembers t m) (hm : m.keys.Nodup) :
      WritesValue ('\x7b' :: (t ++ ['\x7d'])) (.object m)

/-- The items of an array as they are written.  Behind the last comma there may be none. -/
inductive WritesItems : List Char → List Value → Prop where
  | nil {u : List Char} (hu : isBlankText u = true) : WritesItems u []
  | last {u t w : List Char} {v : Value} (hu : isBlankText u = true) (hw : isBlankText w = true)
      (h : WritesValue t v) : WritesItems (u ++ (t ++ w)) [v]
  | cons {u t w ts : List Char} {v : Value} {vs : List Value} (hu : isBlankText u = true)
      (hw : isBlankText w = true) (h : WritesValue t v) (hs : WritesItems ts vs) :
      WritesItems (u ++ (t ++ (w ++ ',' :: ts))) (v :: vs)

/-- A member as it is written: a key and perhaps a value. -/
inductive WritesMember : List Char → String × Value → Prop where
  | alone {t : List Char} {k : String} (h : WritesKey t k) : WritesMember t (k, .bool true)
  | assigned {t u w x : List Char} {e : Char} {k : String} {v : Value} (h : WritesKey t k)
      (hu : isBlankText u = true) (he : e = '=' ∨ e = ':') (hw : isBlankText w = true) (hx : WritesValue x v) :
      WritesMember (t ++ (u ++ e :: (w ++ x))) (k, v)

/-- The members of an object as they are written.  Behind the last comma there may be none. -/
inductive WritesMembers : List Char → List (String × Value) → Prop where
  | nil {u : List Char} (hu : isBlankText u = true) : WritesMembers u []
  | last {u t w : List Char} {m : String × Value} (hu : isBlankText u = true) (hw : isBlankText w = true)
      (h : WritesMember t m) : WritesMembers (u ++ (t ++ w)) [m]
  | cons {u t w ts : List Char} {m : String × Value} {ms : List (String × Value)} (hu : isBlankText u = true)
      (hw : isBlankText w = true) (h : WritesMember t m) (hs : WritesMembers ts ms) :
      WritesMembers (u ++ (t ++ (w ++ ',' :: ts))) (m :: ms)

end

end HeaderReflection.Attribute

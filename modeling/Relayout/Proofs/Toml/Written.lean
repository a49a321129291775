/-
  Relayout/Proofs/Toml/Written.lean
  =================================
  **Statements that are written are read back.**

  A written line is the header of a table or the assignment of a value to a name.  Both are read
  back as the statement they stand for (`Reader.statement_header`, `Reader.statement_assignment`)
  and leave what follows their line, so a text is read line by line (`Reader.lines_step`).  The
  values of assignments are strings in quotes and decimal numerals (`scalar_toDigits`).
-/
import Relayout.Proofs.Decimal.Texts
import Relayout.Proofs.Json.Index
import Relayout.Proofs.Toml.Quoted

namespace Relayout.Toml

/-! ### Numerals -/

section Numerals

variable {ds rest : List Char}

theorem Scalar.digitBelow?_of_isDigit {c : Char} (h : c.isDigit = true) :
    digitBelow? 10 c = some (c.toNat - 48) := by
  have hrange : 48 ≤ c.toNat ∧ c.toNat ≤ 57 := Char.isDigit_iff_toNat.1 h
  have hvalue : Text.hexValue? c = some (c.toNat - 48) := by
    have hlow : '0' ≤ c := hrange.1
    have hhigh : c ≤ '9' := hrange.2
    simp [Text.hexValue?, hlow, hhigh]
  have hlt : c.toNat - 48 < 10 := by omega
  simp [digitBelow?, hvalue, hlt]

theorem Scalar.digitRun_digits (h : ∀ c ∈ ds, c.isDigit = true) (rest : List Char) :
    digitRun 10 (ds ++ '\n' :: rest) = (ds.map (fun c => c.toNat - 48), '\n' :: rest) := by
  induction ds with
  | nil =>
    have hnewline : digitBelow? 10 '\n' = none := by decide
    simp [digitRun, hnewline]
  | cons c ds ih =>
    obtain ⟨hc, hds⟩ := List.forall_mem_cons.1 h
    simp [digitRun, digitBelow?_of_isDigit hc, ih hds]

theorem Moment.eq_of_digits? {count n : Nat} {after : List Char}
    (hsome : digits? count (ds ++ '\n' :: rest) = some (n, after)) :
    after = ds.drop count ++ '\n' :: rest := by
  unfold digits? at hsome
  simp only at hsome
  split at hsome
  · by_cases hcount : count ≤ ds.length
    · rw [List.drop_append_of_le_length hcount] at hsome
      cases htext : Text.digits? (List.take count (ds ++ '\n' :: rest)) with
      | none => simp [htext] at hsome
      | some m =>
        rw [htext] at hsome
        cases hsome
        rfl
    · -- then the line end is among the digits
      exfalso
      have hmem : '\n' ∈ List.take count (ds ++ '\n' :: rest) := by
        obtain ⟨more, hmore⟩ : ∃ more, count - ds.length = more + 1 := ⟨count - ds.length - 1, by omega⟩
        rw [List.take_append, hmore]
        simp
      simp [Text.digits?_eq_none_of_mem hmem] at hsome
  · cases hsome

/-- No moment begins with digits before the end of a line. -/
theorem moment?_digits (h : ∀ c ∈ ds, c.isDigit = true) (rest : List Char) :
    moment? (ds ++ '\n' :: rest) = none := by
  have hhead (count : Nat) (c : Char) (hc : c ∈ (ds.drop count ++ '\n' :: rest).head?) :
      c.isDigit = true ∨ c = '\n' := by
    cases hdrop : ds.drop count with
    | nil =>
      rw [hdrop] at hc
      cases hc
      exact Or.inr rfl
    | cons d more =>
      have hmem : d ∈ ds := List.mem_of_mem_drop (hdrop ▸ List.mem_cons_self)
      rw [hdrop] at hc
      cases hc
      exact Or.inl (h c hmem)
  have hyear : Moment.year? (ds ++ '\n' :: rest) = none := by
    unfold Moment.year?
    split
    · rename_i year after hdigits
      have hafter := Moment.eq_of_digits? hdigits
      exact absurd (hhead 4 '-' (by rw [← hafter]; rfl)) (by decide)
    · rfl
  have hhour : Moment.hour? (ds ++ '\n' :: rest) = none := by
    unfold Moment.hour?
    split
    · rename_i hour after hdigits
      have hafter := Moment.eq_of_digits? hdigits
      exact absurd (hhead 2 ':' (by rw [← hafter]; rfl)) (by decide)
    · rfl
  rw [moment?, hyear, hhour]
  rfl

theorem Scalar.wholeDigits_toDigits (n : Nat) (rest : List Char) :
    wholeDigits (Nat.toDigits 10 n ++ '\n' :: rest) =
      .ok ((Nat.toDigits 10 n).map (fun c => c.toNat - 48), '\n' :: rest) := by
  have hdigits : ∀ c ∈ Nat.toDigits 10 n, c.isDigit = true := fun c hc =>
    Nat.isDigit_of_mem_toDigits (by decide) (by decide) hc
  rcases Nat.eq_zero_or_pos n with rfl | hpos
  · rfl
  · have hread : digits 10 (Nat.toDigits 10 n ++ '\n' :: rest) =
        .ok ((Nat.toDigits 10 n).map (fun c => c.toNat - 48), '\n' :: rest) := by
      have hfirst : ((Nat.toDigits 10 n ++ '\n' :: rest).head?.bind (digitBelow? 10)).isNone = false := by
        cases hlist : Nat.toDigits 10 n with
        | nil => exact absurd hlist Nat.toDigits_ne_nil
        | cons c ds => simp [digitBelow?_of_isDigit (hdigits c (hlist ▸ List.mem_cons_self))]
      rw [digits, hfirst, digitRun_digits hdigits]
      rfl
    unfold wholeDigits
    split
    · -- a positive number has no zero in front
      rename_i more hzero
      exfalso
      cases hlist : Nat.toDigits 10 n with
      | nil => exact Nat.toDigits_ne_nil hlist
      | cons c ds =>
        rw [hlist] at hzero
        obtain ⟨rfl, -⟩ := List.cons.inj hzero
        exact Pointer.toDigits_ne_zero_cons hpos ds hlist
    · rw [hread]
      rfl

/-- What begins with a digit and neither with a moment nor with the mark of another base is a
    number. -/
theorem scalar_of_isDigit {c : Char} (hc : c.isDigit = true)
    (hbase : ∀ d ∈ rest.head?, d ≠ 'x' ∧ d ≠ 'o' ∧ d ≠ 'b') (hmoment : moment? (c :: rest) = none) :
    scalar (c :: rest) = Scalar.number (c :: rest) := by
  have hword (d : Char) (hd : d.isDigit = false) (cs : List Char) : c :: rest ≠ d :: cs :=
    fun heq => Text.ne_of_class hc hd (List.cons.inj heq).1
  unfold scalar
  split
  · rename_i heq
    cases heq
  · exact absurd ‹_› (hword 't' rfl _)
  · exact absurd ‹_› (hword 'f' rfl _)
  · rename_i heq
    cases heq
    exact absurd rfl (hbase 'x' rfl).1
  · rename_i heq
    cases heq
    exact absurd rfl (hbase 'o' rfl).2.1
  · rename_i heq
    cases heq
    exact absurd rfl (hbase 'b' rfl).2.2
  · rename_i heq
    obtain ⟨rfl, -⟩ := List.cons.inj heq
    simp [hc, hmoment]

/-- A number that begins with digits before the end of a line is their integer. -/
theorem Scalar.number_of_isDigit {c : Char} (hc : c.isDigit = true) {whole : List Nat}
    {after : List Char} (hwhole : wholeDigits (c :: rest) = .ok (whole, '\n' :: after)) :
    number (c :: rest) = integer (c :: rest) (value 10 whole) ('\n' :: after) := by
  have hsigned : Text.signed (c :: rest) = (false, c :: rest) := by
    simp [Text.signed, Text.ne_of_class hc]
  have hfloat : floatGoesOn ('\n' :: after) = false := rfl
  unfold number
  simp only [hsigned]
  split
  · exact absurd (List.cons.inj ‹_›).1 (Text.ne_of_class hc rfl)
  · exact absurd (List.cons.inj ‹_›).1 (Text.ne_of_class hc rfl)
  · simp [hwhole, hfloat, Text.withSign, bind, Except.bind]

/-- A numeral is read back, if its number fits. -/
theorem scalar_toDigits {n : Nat} (hn : n < Nat.pow 2 63) (rest : List Char) :
    scalar (Nat.toDigits 10 n ++ '\n' :: rest) = .ok (.int n, '\n' :: rest) := by
  have hdigits : ∀ c ∈ Nat.toDigits 10 n, c.isDigit = true := fun c hc =>
    Nat.isDigit_of_mem_toDigits (by decide) (by decide) hc
  have hvalue : Scalar.value 10 ((Nat.toDigits 10 n).map (fun c => c.toNat - 48)) = n := by
    rw [Scalar.value, List.foldl_map]
    exact Nat.ofDigitChars_ten_toDigits
  have hfits : Text.fitting? (n : Int) = some (n : Int) := by
    have hpow : Nat.pow 2 63 = 9223372036854775808 := rfl
    rw [Text.fitting?, if_pos]
    simp only [hpow, Bool.and_eq_true, decide_eq_true_eq] at hn ⊢
    omega
  have hwhole := Scalar.wholeDigits_toDigits n rest
  have hmoment := moment?_digits hdigits rest
  cases hlist : Nat.toDigits 10 n with
  | nil => exact absurd hlist Nat.toDigits_ne_nil
  | cons c ds =>
    rw [hlist] at hdigits hvalue hwhole hmoment
    obtain ⟨hc, hds⟩ := List.forall_mem_cons.1 hdigits
    have hbase : ∀ d ∈ (ds ++ '\n' :: rest).head?, d ≠ 'x' ∧ d ≠ 'o' ∧ d ≠ 'b' := by
      intro d hd
      cases ds with
      | nil =>
        cases hd
        decide
      | cons e ds =>
        cases hd
        refine ⟨?_, ?_, ?_⟩ <;>
          · rintro rfl
            exact absurd (hds _ List.mem_cons_self) (by decide)
    rw [List.cons_append] at hwhole hmoment ⊢
    rw [scalar_of_isDigit hc hbase hmoment, Scalar.number_of_isDigit hc hwhole, hvalue,
      Scalar.integer, hfits]

end Numerals

namespace Reader

theorem value_toDigits {n : Nat} (hn : n < Nat.pow 2 63) (rounds depth : Nat) (rest : List Char) :
    value (rounds + 1) depth (Nat.toDigits 10 n ++ '\n' :: rest) = .ok (.int n, '\n' :: rest) := by
  have hscalar := scalar_toDigits hn rest
  cases hlist : Nat.toDigits 10 n with
  | nil => exact absurd hlist Nat.toDigits_ne_nil
  | cons c ds =>
    have hc : c.isDigit = true :=
      Nat.isDigit_of_mem_toDigits (by decide) (by decide) (hlist ▸ List.mem_cons_self)
    rw [hlist] at hscalar
    rw [List.cons_append] at hscalar ⊢
    have hform : form? (c :: (ds ++ '\n' :: rest)) = none := by
      simp [form?, Text.ne_of_class hc]
    unfold value
    simpa [hform, Text.ne_of_class hc] using hscalar

theorem isSpace_eq_false {c : Char} (hspace : c ≠ ' ') (htab : c ≠ '\t') : isSpace c = false := by
  simp [isSpace, hspace, htab]

theorem isSpace_head_toDigits {n : Nat} {c : Char} (h : c ∈ (Nat.toDigits 10 n).head?) :
    isSpace c = false := by
  have hc : c.isDigit = true :=
    Nat.isDigit_of_mem_toDigits (by decide) (by decide) (List.mem_of_mem_head? h)
  exact isSpace_eq_false (Text.ne_of_class hc rfl) (Text.ne_of_class hc rfl)

theorem isSpace_head_quoted {s : String} {c : Char} (h : c ∈ (Writer.quoted s).head?) :
    isSpace c = false := by
  have hquotes : ∀ form ∈ Form.all, isSpace form.quote = false := by decide
  have hform := (Writer.fits_formOf s.toList).form_mem
  have hc : (Writer.formOf s.toList).quote = c := by
    cases hmultiline : (Writer.formOf s.toList).multiline <;>
      simpa [Writer.quoted, Writer.inForm, Form.delimiter, hmultiline, List.replicate] using h
  exact hc ▸ hquotes _ hform

/-! ### Lines -/

structure IsBareName (name : String) : Prop where
  ne_nil : name.toList ≠ []
  bare : ∀ c ∈ name.toList, isBare c = true

instance (name : String) : Decidable (IsBareName name) :=
  decidable_of_iff (name.toList ≠ [] ∧ name.toList.all isBare = true)
    ⟨fun h => ⟨h.1, List.all_eq_true.1 h.2⟩, fun h => ⟨h.ne_nil, List.all_eq_true.2 h.bare⟩⟩

variable {name : String} {rest written : List Char} {v : Value}

theorem takeWhile_isBare {cs : List Char} (hcs : ∀ c ∈ cs, isBare c = true)
    (hrest : ∀ c ∈ rest.head?, isBare c = false) :
    (cs ++ rest).takeWhile isBare = cs ∧ (cs ++ rest).dropWhile isBare = rest := by
  rw [List.takeWhile_append_of_pos hcs, List.dropWhile_append_of_pos hcs]
  cases rest with
  | nil => simp
  | cons c rest => simp [hrest c rfl]

theorem IsBareName.exists_cons (h : IsBareName name) :
    ∃ c cs, name.toList = c :: cs ∧ isBare c = true := by
  cases hname : name.toList with
  | nil => exact absurd hname h.ne_nil
  | cons c cs => exact ⟨c, cs, rfl, h.bare c (hname ▸ List.mem_cons_self)⟩

theorem simpleKey_of_isBareName (h : IsBareName name) (hrest : ∀ c ∈ rest.head?, isBare c = false) :
    simpleKey (name.toList ++ rest) = .ok (name, rest) := by
  obtain ⟨htake, hdrop⟩ := takeWhile_isBare h.bare hrest
  obtain ⟨c, cs, hname, hc⟩ := h.exists_cons
  have hempty : name.toList.isEmpty = false := by simpa using h.ne_nil
  unfold simpleKey
  split
  · rename_i hcons
    rw [hname] at hcons
    exact absurd (List.cons.inj hcons).1 (Text.ne_of_class hc rfl)
  · rename_i hcons
    rw [hname] at hcons
    exact absurd (List.cons.inj hcons).1 (Text.ne_of_class hc rfl)
  · simp only [htake, hdrop, hempty, Bool.false_eq_true, if_false, String.ofList_toList]

theorem skipSpaces_of_head {cs : List Char} (h : ∀ c ∈ cs.head?, isSpace c = false) :
    skipSpaces cs = cs := by
  cases cs with
  | nil => rfl
  | cons c cs => simp [skipSpaces, h c rfl]

/-- A name before what does not go on with it is a key of one part. -/
theorem key_of_isBareName (h : IsBareName name) (rounds : Nat)
    (hrest : ∀ c ∈ rest.head?, isBare c = false) (hpoint : ∀ c ∈ (skipSpaces rest).head?, c ≠ '.') :
    key (rounds + 1) (name.toList ++ rest) = .ok ([name], skipSpaces rest) := by
  have hspaces : skipSpaces (name.toList ++ rest) = name.toList ++ rest := by
    obtain ⟨c, cs, hname, hc⟩ := h.exists_cons
    apply skipSpaces_of_head
    intro d hd
    obtain rfl : c = d := by simpa [hname] using hd
    exact isSpace_eq_false (Text.ne_of_class hc rfl) (Text.ne_of_class hc rfl)
  rw [key, hspaces, simpleKey_of_isBareName h hrest]
  simp only [bind, Except.bind]
  split
  · rename_i hcons
    exact absurd rfl (hpoint '.' (by rw [hcons]; rfl))
  · rfl

theorem statement_header (h : IsBareName name) (rounds : Nat) (rest : List Char) :
    statement (rounds + 1) (Writer.header name ++ rest) = .ok (.table [name], rest) := by
  have hkey : key (rounds + 1) (name.toList ++ ']' :: '\n' :: rest) =
      .ok ([name], ']' :: '\n' :: rest) :=
    key_of_isBareName h rounds (by simp [isBare]) (by simp [skipSpaces, isSpace])
  obtain ⟨c, cs, hname, hc⟩ := h.exists_cons
  have hheader : Writer.header name ++ rest = '[' :: (name.toList ++ ']' :: '\n' :: rest) := by
    simp [Writer.header]
  rw [hheader]
  unfold statement
  split
  · rename_i hcons
    rw [hname] at hcons
    cases hcons
    exact absurd hc (by decide)
  · rename_i hcons
    cases hcons
    rw [hkey]
    rfl
  · rename_i hnone
    exact (hnone _ rfl).elim

/-- An assignment that is written is read back, if its value is. -/
theorem statement_assignment (h : IsBareName name) (rounds : Nat)
    (hspace : ∀ c ∈ written.head?, isSpace c = false)
    (hvalue : value (rounds + 1) depthLimit (written ++ '\n' :: rest) = .ok (v, '\n' :: rest)) :
    statement (rounds + 1) (Writer.assignment name written ++ rest) =
      .ok (.assign [name] v, rest) := by
  have hkey : key (rounds + 1) (name.toList ++ ' ' :: '=' :: ' ' :: (written ++ '\n' :: rest)) =
      .ok ([name], '=' :: ' ' :: (written ++ '\n' :: rest)) :=
    key_of_isBareName h rounds (by simp [isBare]) (by simp [skipSpaces, isSpace])
  have hspaces : skipSpaces (' ' :: (written ++ '\n' :: rest)) = written ++ '\n' :: rest := by
    have hdrop : skipSpaces (' ' :: (written ++ '\n' :: rest)) =
        skipSpaces (written ++ '\n' :: rest) := by
      simp [skipSpaces, isSpace]
    rw [hdrop]
    apply skipSpaces_of_head
    intro c hc
    cases written with
    | nil =>
      cases hc
      rfl
    | cons d written => exact hspace c hc
  obtain ⟨c, cs, hname, hc⟩ := h.exists_cons
  have hassignment : Writer.assignment name written ++ rest =
      name.toList ++ ' ' :: '=' :: ' ' :: (written ++ '\n' :: rest) := by
    simp [Writer.assignment]
  have hbracket : c ≠ '[' := Text.ne_of_class hc rfl
  rw [hassignment]
  unfold statement
  split
  · rename_i hcons
    rw [hname] at hcons
    exact absurd (List.cons.inj hcons).1 hbracket
  · rename_i hcons
    rw [hname] at hcons
    exact absurd (List.cons.inj hcons).1 hbracket
  · rw [hkey]
    simp [bind, Except.bind, equalsSign, sign, hspaces, hvalue]
    rfl

/-- A line that begins with a sign of its own has nothing to skip. -/
theorem skipLines_of_head {c : Char} (hnewline : c ≠ '\n') (hreturn : c ≠ '\r') (hspace : isSpace c = false)
    (hcomment : c ≠ '#') (cs : List Char) : skipLines false (c :: cs) = c :: cs := by
  simp [skipLines, hnewline, hreturn, hspace, hcomment]

theorem skipLines_header (name : String) (rest : List Char) :
    skipLines false (Writer.header name ++ rest) = Writer.header name ++ rest :=
  skipLines_of_head (by decide) (by decide) rfl (by decide) _

theorem skipLines_assignment (h : IsBareName name) (written rest : List Char) :
    skipLines false (Writer.assignment name written ++ rest) =
      Writer.assignment name written ++ rest := by
  obtain ⟨c, cs, hname, hc⟩ := h.exists_cons
  have hspace : isSpace c = false :=
    isSpace_eq_false (Text.ne_of_class hc rfl) (Text.ne_of_class hc rfl)
  simp only [Writer.assignment, hname, List.cons_append]
  exact skipLines_of_head (Text.ne_of_class hc rfl) (Text.ne_of_class hc rfl) hspace
    (Text.ne_of_class hc rfl) _

/-- A text is read by its first statement, and then from the next line on. -/
theorem lines_step {rounds : Nat} {d d' : Document} {cs start : List Char} {s : Statement}
    (hskip : skipLines false cs = start) (hstatement : ∀ more, statement (more + 1) start = .ok (s, rest))
    (happly : d.apply s = .ok d') : lines (rounds + 1) d cs = lines rounds d' rest := by
  have hstart : start ≠ [] := by
    rintro rfl
    exact absurd (hstatement 0) nofun
  rw [lines, hskip]
  split
  · contradiction
  · rw [hstatement]
    simp only [bind, Except.bind, happly]

end Reader

end Relayout.Toml

/-
  Relayout/Proofs/Toml/Quoted.lean
  ================================
  **A string that is written is read back.**

  Reading a string goes from mode to mode, so what is known of a piece of written text is what
  it adds to the string and the mode it leads to (`Form.Carries`).  The quotes of the text that
  the reading has passed last are not added yet: they may still turn out to be part of the
  end.  So a text is carried up to its last quotes, of which there are never so many that they
  could be taken for the end (`Form.most`), and the end settles them (`Form.read_end`).
-/
import Relayout.Toml.Reader
import Relayout.Toml.Writer

namespace Relayout.Toml

namespace Form

/-- In one mode, written text adds to the string and leads to another mode, whatever follows. -/
def Carries (form : Form) (mode : Mode) (written added : List Char) (next : Mode) : Prop :=
  ∀ rest, form.read mode (written ++ rest) =
    (form.read next rest).map (fun r => (added ++ r.1, r.2))

def all : List Form := [basic, literal, multilineBasic, multilineLiteral]

theorem quote_spec : ∀ form ∈ all, form.quote ≠ '\\' ∧ form.quote ≠ '\r' ∧ form.quote ≠ '\n' ∧
    (form.escapes = true → form.quote = '"') := by
  decide

/-- How many quotes may stand together where the text goes on or ends. -/
def most (form : Form) : Nat := if form.multiline then 2 else 0

variable {form : Form} {mode next last : Mode} {written more added new : List Char} {c : Char}
  {quotes : Nat}

theorem Carries.nil (mode : Mode) : form.Carries mode [] [] mode := by
  intro rest
  cases h : form.read mode rest <;> simp [h, Except.map]

theorem Carries.append (h : form.Carries mode written added next)
    (hmore : form.Carries next more new last) :
    form.Carries mode (written ++ more) (added ++ new) last := by
  intro rest
  rw [List.append_assoc, h, hmore]
  cases form.read last rest <;> simp [Except.map]

theorem carries_of_step (h : form.step mode c = .go added next) :
    form.Carries mode [c] added next := by
  intro rest
  rw [List.singleton_append, read, h]

theorem Carries.cons (h : form.step mode c = .go added next)
    (hmore : form.Carries next more new last) :
    form.Carries mode (c :: more) (added ++ new) last :=
  (carries_of_step h).append hmore

/-! ### Characters -/

theorem most_lt_three (form : Form) : form.most < 3 := by
  rw [most]
  split <;> decide

theorem step_plain (hquotes : quotes ≤ form.most) (hc : c ≠ form.quote) :
    form.step (.plain quotes) c = form.textStep quotes c := by
  have hfew : ¬ 3 ≤ quotes := by have := form.most_lt_three; omega
  rw [step, plainStep, if_neg hc, if_neg hfew]

theorem carries_quote (h : quotes < form.most) :
    form.Carries (.plain quotes) [form.quote] [] (.plain (quotes + 1)) := by
  cases hmultiline : form.multiline with
  | false => simp [most, hmultiline] at h
  | true =>
    have hfew : quotes ≠ 4 := by have := form.most_lt_three; omega
    exact carries_of_step (by simp [step, plainStep, hmultiline, hfew])

theorem carries_char (hquotes : quotes ≤ form.most) (hc : c ≠ form.quote)
    (hescapes : form.escapes = true → c ≠ '\\')
    (hcontrol : isControl c = false ∨ form.multiline = true ∧ c = '\n') :
    form.Carries (.plain quotes) [c] (List.replicate quotes form.quote ++ [c]) (.plain 0) := by
  apply carries_of_step
  rw [step_plain hquotes hc, textStep]
  have hbackslash : (form.escapes && decide (c = '\\')) = false := by
    cases hform : form.escapes with
    | false => rfl
    | true => simpa using hescapes hform
  simp only [hbackslash]
  rcases hcontrol with hcontrol | ⟨hmultiline, rfl⟩
  · have hnewline : c ≠ '\n' := by
      rintro rfl
      revert hcontrol
      decide
    have hreturn : c ≠ '\r' := by
      rintro rfl
      revert hcontrol
      decide
    simp [hnewline, hreturn, hcontrol]
  · simp [hmultiline]

section Escapes

variable (hescapes : form.escapes = true) (hquote : form.quote = '"')
include hescapes hquote

theorem carries_backslash (hquotes : quotes ≤ form.most) :
    form.Carries (.plain quotes) ['\\'] (List.replicate quotes form.quote) .escape := by
  apply carries_of_step
  rw [step_plain hquotes (by rw [hquote]; decide)]
  simp [textStep, hescapes]

theorem carries_letter (hquotes : quotes ≤ form.most) {letter : Char} (hletter : letter ≠ 'u' ∧ letter ≠ 'U')
    (hc : escapedChar? letter = some c) :
    form.Carries (.plain quotes) ['\\', letter] (List.replicate quotes form.quote ++ [c])
      (.plain 0) :=
  (carries_backslash hescapes hquote hquotes).append
    (carries_of_step (by simp [step, hletter.1, hletter.2, hc]))

theorem carries_code (hquotes : quotes ≤ form.most) (hc : c.toNat < 256) :
    form.Carries (.plain quotes)
      ['\\', 'u', '0', '0', Text.hexDigitUpper (c.toNat / 16), Text.hexDigitUpper (c.toNat % 16)]
      (List.replicate quotes form.quote ++ [c]) (.plain 0) := by
  have hdigit : ∀ d < 16, Text.hexValue? (Text.hexDigitUpper d) = some d := by decide
  have hzero : Text.hexValue? '0' = some 0 := by decide
  have hhigh := hdigit (c.toNat / 16) (by omega)
  have hlow := hdigit (c.toNat % 16) (by omega)
  have hvalue : 16 * (c.toNat / 16) + c.toNat % 16 = c.toNat := Nat.div_add_mod _ _
  have hchar : codeChar? c.toNat = some c := by
    have hsmall : c.toNat < 0xD800 := by omega
    simp [codeChar?, hsmall]
  have hu : form.step .escape 'u' = .go [] (.code 4 0) := by simp [step]
  have hfirst : form.step (.code 4 0) '0' = .go [] (.code 3 0) := by simp [step, hzero]
  have hsecond : form.step (.code 3 0) '0' = .go [] (.code 2 0) := by simp [step, hzero]
  have hthird : form.step (.code 2 0) (Text.hexDigitUpper (c.toNat / 16)) =
      .go [] (.code 1 (c.toNat / 16)) := by
    simp [step, hhigh]
  have hfourth : form.step (.code 1 (c.toNat / 16)) (Text.hexDigitUpper (c.toNat % 16)) =
      .go [c] (.plain 0) := by
    simp [step, hlow, hvalue, hchar]
  exact (carries_backslash hescapes hquote hquotes).append
    (.cons hu (.cons hfirst (.cons hsecond (.cons hthird (carries_of_step hfourth)))))

open Writer in
/-- A character other than the quote, as it is written. -/
theorem carries_escapeChar (hquotes : quotes ≤ form.most) (hc : c ≠ form.quote) :
    form.Carries (.plain quotes) (escapeChar form c) (List.replicate quotes form.quote ++ [c])
      (.plain 0) := by
  rw [escapeChar]
  by_cases hbackslash : c = '\\'
  · subst hbackslash
    exact carries_letter hescapes hquote hquotes (by decide) (by decide)
  rw [if_neg hbackslash]
  by_cases htab : c = '\t'
  · subst htab
    exact carries_letter hescapes hquote hquotes (by decide) (by decide)
  rw [if_neg htab]
  by_cases hnewline : c = '\n'
  · subst hnewline
    rw [if_pos rfl]
    split
    · rename_i hmultiline
      exact carries_char hquotes hc (fun _ => hbackslash) (Or.inr ⟨hmultiline, rfl⟩)
    · exact carries_letter hescapes hquote hquotes (by decide) (by decide)
  rw [if_neg hnewline]
  by_cases hreturn : c = '\r'
  · subst hreturn
    exact carries_letter hescapes hquote hquotes (by decide) (by decide)
  rw [if_neg hreturn]
  by_cases hbackspace : c.toNat = 8
  · obtain rfl : c = Char.ofNat 8 := by rw [← hbackspace, Char.ofNat_toNat]
    exact carries_letter hescapes hquote hquotes (by decide) (by decide)
  rw [if_neg hbackspace]
  by_cases hfeed : c.toNat = 12
  · obtain rfl : c = Char.ofNat 12 := by rw [← hfeed, Char.ofNat_toNat]
    exact carries_letter hescapes hquote hquotes (by decide) (by decide)
  rw [if_neg hfeed]
  by_cases hcoded : isCoded c = true
  · rw [if_pos hcoded]
    apply carries_code hescapes hquote hquotes
    simp [isCoded] at hcoded
    omega
  · rw [if_neg hcoded]
    refine carries_char hquotes hc (fun _ => hbackslash) (Or.inl ?_)
    simpa [isCoded, isControl, htab, hnewline] using hcoded

open Writer in
/-- A text in which characters are escaped, up to its last quotes. -/
theorem carries_escaped (cs : List Char) (hquotes : quotes ≤ form.most) :
    ∃ added left, left ≤ form.most ∧
      added ++ List.replicate left form.quote = List.replicate quotes form.quote ++ cs ∧
      form.Carries (.plain quotes) (escaped form quotes cs) added (.plain left) := by
  induction cs generalizing quotes with
  | nil => exact ⟨[], quotes, hquotes, by simp, Carries.nil _⟩
  | cons c cs ih =>
    rw [escaped]
    -- a quote stands as it is while there is room for it, and is escaped otherwise
    by_cases hc : c = form.quote
    · rw [if_pos hc]
      subst hc
      by_cases hfew : quotes < form.most
      · have hmore : quotes + 1 ≤ form.most := hfew
        obtain ⟨added, left, hleft, hsame, hcarries⟩ := ih hmore
        have hquoted := (carries_quote hfew).append hcarries
        refine ⟨added, left, hleft, ?_, ?_⟩
        · rw [hsame, List.replicate_succ', List.append_assoc]
          rfl
        · rw [most] at hfew
          rw [if_pos hfew]
          simpa using hquoted
      · obtain ⟨added, left, hleft, hsame, hcarries⟩ := ih (Nat.zero_le form.most)
        have hself : escapedChar? form.quote = some form.quote := by
          rw [hquote]
          decide
        have hletter := carries_letter hescapes hquote hquotes (by rw [hquote]; decide) hself
        refine ⟨List.replicate quotes form.quote ++ [form.quote] ++ added, left, hleft, ?_, ?_⟩
        · rw [List.append_assoc, hsame]
          simp
        · rw [most] at hfew
          rw [if_neg hfew]
          exact hletter.append hcarries
    · obtain ⟨added, left, hleft, hsame, hcarries⟩ := ih (Nat.zero_le form.most)
      refine ⟨List.replicate quotes form.quote ++ [c] ++ added, left, hleft, ?_, ?_⟩
      · rw [List.append_assoc, hsame]
        simp
      · rw [if_neg hc]
        exact (carries_escapeChar hescapes hquote hquotes hc).append hcarries

end Escapes

/-! ### Texts without escapes -/

open Writer in
theorem le_longestRun (q : Char) (run : Nat) (cs : List Char) : run ≤ longestRun q run cs := by
  induction cs generalizing run with
  | nil => exact Nat.le_refl run
  | cons c cs ih =>
    rw [longestRun]
    split
    · exact Nat.le_trans (Nat.le_succ run) (ih (run + 1))
    · exact Nat.le_max_left _ _

open Writer in
/-- A text that stands as it is, up to its last quotes. -/
theorem carries_self (hescapes : form.escapes = false) {cs : List Char}
    (hcontrol : ∀ c ∈ cs, isControl c = false ∨ form.multiline = true ∧ c = '\n')
    (hrun : longestRun form.quote quotes cs ≤ form.most) :
    ∃ added left, left ≤ form.most ∧
      added ++ List.replicate left form.quote = List.replicate quotes form.quote ++ cs ∧
      form.Carries (.plain quotes) cs added (.plain left) := by
  have hquotes : quotes ≤ form.most := Nat.le_trans (le_longestRun _ _ _) hrun
  induction cs generalizing quotes with
  | nil => exact ⟨[], quotes, hquotes, by simp, Carries.nil _⟩
  | cons c cs ih =>
    obtain ⟨hhead, htail⟩ := List.forall_mem_cons.1 hcontrol
    rw [longestRun] at hrun
    by_cases hc : c = form.quote
    · rw [if_pos hc] at hrun
      subst hc
      have hmore := Nat.le_trans (le_longestRun _ _ _) hrun
      obtain ⟨added, left, hleft, hsame, hcarries⟩ := ih htail hrun hmore
      refine ⟨added, left, hleft, ?_, ?_⟩
      · rw [hsame, List.replicate_succ', List.append_assoc]
        rfl
      · simpa using (carries_quote hmore).append hcarries
    · rw [if_neg hc] at hrun
      have hrest := Nat.le_trans (Nat.le_max_right _ _) hrun
      obtain ⟨added, left, hleft, hsame, hcarries⟩ := ih htail hrest (Nat.zero_le _)
      refine ⟨List.replicate quotes form.quote ++ [c] ++ added, left, hleft, ?_, ?_⟩
      · rw [List.append_assoc, hsame]
        simp
      · exact (carries_char hquotes hc (by simp [hescapes]) hhead).append hcarries

/-! ### Whole strings -/

/-- The closing quotes end a string, with the quotes of the text that stand before them. -/
theorem read_end (hquote : form.quote ≠ '\n') {left : Nat} (hleft : left ≤ form.most)
    (rest : List Char) :
    form.read (.plain left) (form.delimiter ++ '\n' :: rest) =
      .ok (List.replicate left form.quote, '\n' :: rest) := by
  have hnewline : '\n' ≠ form.quote := Ne.symm hquote
  cases hmultiline : form.multiline with
  | false =>
    simp [most, hmultiline] at hleft
    subst hleft
    simp [delimiter, hmultiline, read, step, plainStep]
  | true =>
    simp [most, hmultiline] at hleft
    match left, hleft with
    | 0, _ | 1, _ | 2, _ =>
      simp [delimiter, hmultiline, read, step, plainStep, hnewline, Except.map, List.replicate]

/-- A text that is carried up to its last quotes is read up to the closing ones. -/
theorem Carries.read_eq (hquote : form.quote ≠ '\n') {left : Nat} (hleft : left ≤ form.most)
    (h : form.Carries (.plain 0) written added (.plain left)) {cs : List Char}
    (hsame : added ++ List.replicate left form.quote = cs) (rest : List Char) :
    form.read (.plain 0) (written ++ (form.delimiter ++ '\n' :: rest)) = .ok (cs, '\n' :: rest) := by
  rw [h, read_end hquote hleft, ← hsame]
  rfl

end Form

theorem afterFirstLineEnd_of_head {cs : List Char} (h : ∀ c ∈ cs.head?, c ≠ '\n' ∧ c ≠ '\r') :
    afterFirstLineEnd cs = cs := by
  unfold afterFirstLineEnd
  split
  · exact absurd rfl (h _ rfl).1
  · exact absurd rfl (h _ rfl).2
  · rfl

namespace Writer

/-- A text can be written in a form: with escapes each can, and otherwise one without
    characters that do not show and with no more quotes together than may stand. -/
structure Fits (form : Form) (cs : List Char) : Prop where
  form_mem : form ∈ Form.all
  shows : form.escapes = false → ∀ c ∈ cs, isCoded c = false
  newlines : form.escapes = false → form.multiline = false → '\n' ∉ cs
  quotes : form.escapes = false → longestRun form.quote 0 cs ≤ form.most

theorem fits_formOf (cs : List Char) : Fits (formOf cs) cs := by
  have hescapes {form : Form} (hmem : form ∈ Form.all) (h : form.escapes = true) : Fits form cs :=
    ⟨hmem, by simp [h], by simp [h], by simp [h]⟩
  have hbasic : Fits .basic cs := hescapes (by decide) rfl
  have hmultilineBasic : Fits .multilineBasic cs := hescapes (by decide) rfl
  unfold formOf
  simp only
  split
  · exact hbasic
  split
  · rename_i hliteral
    simp only [Bool.and_eq_true, Bool.not_eq_true', decide_eq_true_eq] at hliteral
    obtain ⟨⟨hcoded, hnewline⟩, hquotes⟩ := hliteral
    exact ⟨by decide, fun _ => by simpa using hcoded, fun _ _ => by simpa using hnewline,
      fun _ => Nat.le_of_eq hquotes⟩
  split
  · exact hmultilineBasic
  split
  · rename_i hliteral
    simp only [Bool.and_eq_true, Bool.not_eq_true', decide_eq_true_eq] at hliteral
    exact ⟨by decide, fun _ => by simpa using hliteral.1, nofun, fun _ => hliteral.2⟩
  split
  · exact hmultilineBasic
  · exact hbasic

/-- A text as it stands between its quotes. -/
def body (form : Form) (cs : List Char) : List Char :=
  if form.escapes then escaped form 0 cs else cs

variable {form : Form} {cs : List Char} {c : Char}

theorem escapeChar_cases (form : Form) (c : Char) :
    escapeChar form c = [c] ∧ c ≠ '\r' ∨ ∃ letters, escapeChar form c = '\\' :: letters := by
  unfold escapeChar
  split
  · exact Or.inr ⟨_, rfl⟩
  split
  · exact Or.inr ⟨_, rfl⟩
  split
  · rename_i hnewline
    subst hnewline
    split
    · exact Or.inl ⟨rfl, by decide⟩
    · exact Or.inr ⟨_, rfl⟩
  split
  · exact Or.inr ⟨_, rfl⟩
  rename_i hreturn
  split
  · exact Or.inr ⟨_, rfl⟩
  split
  · exact Or.inr ⟨_, rfl⟩
  split
  · exact Or.inr ⟨_, rfl⟩
  · exact Or.inl ⟨rfl, hreturn⟩

/-- What a written text begins with cannot be taken for a part of the opening quotes or of the
    line end after them. -/
theorem Fits.head_body (h : Fits form cs) (hc : c ∈ (body form cs).head?) :
    c ≠ '\r' ∧ (c = '\n' → '\n' ∈ cs) ∧ (c = form.quote → form.multiline = true) := by
  obtain ⟨hbackslash, hquoteReturn, hquoteNewline, -⟩ := Form.quote_spec form h.form_mem
  have hescape (hslash : c = '\\') :
      c ≠ '\r' ∧ (c = '\n' → '\n' ∈ cs) ∧ (c = form.quote → form.multiline = true) := by
    subst hslash
    exact ⟨by decide, fun h => absurd h (by decide), fun h => absurd h.symm hbackslash⟩
  cases cs with
  | nil =>
    rw [body, escaped] at hc
    simp at hc
  | cons d cs =>
    cases hescapes : form.escapes with
    | false =>
      rw [body, hescapes] at hc
      obtain rfl : d = c := by simpa using hc
      have hshows := h.shows hescapes d List.mem_cons_self
      refine ⟨?_, fun hnewline => hnewline ▸ List.mem_cons_self, ?_⟩
      · rintro rfl
        revert hshows
        decide
      · intro hd
        have hrun := h.quotes hescapes
        rw [longestRun, if_pos hd] at hrun
        have hone := Nat.le_trans (Form.le_longestRun _ _ _) hrun
        cases hmultiline : form.multiline with
        | true => rfl
        | false => simp [Form.most, hmultiline] at hone
    | true =>
      rw [body, if_pos hescapes, escaped] at hc
      by_cases hd : d = form.quote
      · rw [if_pos hd] at hc
        by_cases hmultiline : form.multiline = true
        · obtain rfl : d = c := by simpa [hmultiline] using hc
          subst hd
          exact ⟨hquoteReturn, fun hnewline => absurd hnewline hquoteNewline, fun _ => hmultiline⟩
        · apply hescape
          simpa [hmultiline] using hc.symm
      · rw [if_neg hd] at hc
        rcases escapeChar_cases form d with ⟨hself, hreturn⟩ | ⟨letters, hletters⟩
        · obtain rfl : d = c := by simpa [hself] using hc
          exact ⟨hreturn, fun hnewline => hnewline ▸ List.mem_cons_self, fun h => absurd h hd⟩
        · apply hescape
          simpa [hletters] using hc.symm

theorem Fits.form?_single (h : Fits form cs) (hsingle : form.multiline = false) (rest : List Char) :
    form? (form.quote :: (body form cs ++ (form.quote :: '\n' :: rest))) =
      some (form, body form cs ++ (form.quote :: '\n' :: rest)) := by
  have hne : ∀ c ∈ (body form cs).head?, c ≠ form.quote := by
    intro c hc heq
    have hmultiline := (h.head_body hc).2.2 heq
    rw [hsingle] at hmultiline
    cases hmultiline
  have hforms : form = .basic ∨ form = .literal := by
    have hall : ∀ form ∈ Form.all, form.multiline = false → form = .basic ∨ form = .literal := by
      decide
    exact hall form h.form_mem hsingle
  cases hbody : body form cs with
  | nil => rcases hforms with rfl | rfl <;> rfl
  | cons c more =>
    have hc : c ≠ form.quote := hne c (by simp [hbody])
    rcases hforms with rfl | rfl <;> simp_all [form?, Form.basic, Form.literal]

/-- A text in a form of several lines is recognised as what it is, after the line end that is
    put before a text with line ends. -/
theorem Fits.form?_multiline (h : Fits form cs) (hmultiline : form.multiline = true)
    (rest : List Char) :
    form? (form.delimiter ++ ((if cs.contains '\n' then ['\n'] else []) ++
        (body form cs ++ (form.delimiter ++ '\n' :: rest)))) =
      some (form, body form cs ++ (form.delimiter ++ '\n' :: rest)) := by
  have hforms : form = .multilineBasic ∨ form = .multilineLiteral := by
    have hall : ∀ form ∈ Form.all, form.multiline = true →
        form = .multilineBasic ∨ form = .multilineLiteral := by
      decide
    exact hall form h.form_mem hmultiline
  have hform (tail : List Char) :
      form? (form.delimiter ++ tail) = some (form, afterFirstLineEnd tail) := by
    rcases hforms with rfl | rfl <;> rfl
  rw [hform]
  split
  · rfl
  · rename_i hnone
    rw [List.nil_append, afterFirstLineEnd_of_head]
    intro c hc
    cases hbody : body form cs with
    | nil =>
      -- then the closing quotes follow
      rw [hbody] at hc
      rcases hforms with rfl | rfl <;>
        · cases hc
          decide
    | cons d more =>
      have hd : d = c := by simpa [hbody] using hc
      obtain ⟨hreturn, hnewline, -⟩ := h.head_body (c := c) (by simp [hbody, hd])
      exact ⟨fun heq => hnone (by simpa using hnewline heq), hreturn⟩

theorem Fits.form?_inForm (h : Fits form cs) (rest : List Char) :
    form? (inForm form cs ++ '\n' :: rest) =
      some (form, body form cs ++ (form.delimiter ++ '\n' :: rest)) := by
  cases hmultiline : form.multiline with
  | false =>
    have hdelimiter : form.delimiter = [form.quote] := by simp [Form.delimiter, hmultiline]
    simpa [inForm, body, hmultiline, hdelimiter] using h.form?_single hmultiline rest
  | true => simpa [inForm, body, hmultiline] using h.form?_multiline hmultiline rest

theorem Fits.read_body (h : Fits form cs) (rest : List Char) :
    form.read (.plain 0) (body form cs ++ (form.delimiter ++ '\n' :: rest)) =
      .ok (cs, '\n' :: rest) := by
  obtain ⟨-, -, hnewline, hquote⟩ := Form.quote_spec form h.form_mem
  cases hescapes : form.escapes with
  | true =>
    obtain ⟨added, left, hleft, hsame, hcarries⟩ :=
      Form.carries_escaped hescapes (hquote hescapes) cs (Nat.zero_le _)
    rw [body, if_pos hescapes]
    exact hcarries.read_eq hnewline hleft hsame rest
  | false =>
    have hcontrol : ∀ c ∈ cs, isControl c = false ∨ form.multiline = true ∧ c = '\n' := by
      intro c hc
      have hshows := h.shows hescapes c hc
      by_cases hc' : c = '\n'
      · right
        subst hc'
        cases hmultiline : form.multiline with
        | true => exact ⟨rfl, rfl⟩
        | false => exact absurd hc (h.newlines hescapes hmultiline)
      · left
        simpa [isCoded, isControl, hc'] using hshows
    obtain ⟨added, left, hleft, hsame, hcarries⟩ :=
      Form.carries_self hescapes hcontrol (h.quotes hescapes)
    rw [body, hescapes]
    exact hcarries.read_eq hnewline hleft hsame rest

end Writer

/-- A string that is written is read back, and what follows its line end is left. -/
theorem Reader.value_quoted (rounds depth : Nat) (s : String) (rest : List Char) :
    Reader.value (rounds + 1) depth (Writer.quoted s ++ '\n' :: rest) = .ok (.str s, '\n' :: rest) := by
  have hfits := Writer.fits_formOf s.toList
  unfold Reader.value
  simp only [Writer.quoted, hfits.form?_inForm, hfits.read_body, Except.map, String.ofList_toList]

end Relayout.Toml

import Mathlib.Data.List.Infix
import EntitySql.Expr

/-! Patterns as LIKE reads them. A percent sign stands for any run of characters and an
underscore for any one of them; after a backslash a character stands for itself, and so does a
backslash with nothing after it. -/

namespace EntitySql

inductive PatternItem where
  | run
  | any
  | exactly (character : Char)
  deriving DecidableEq, Repr

def PatternItem.of : Char → PatternItem
  | '%' => .run
  | '_' => .any
  | character => .exactly character

def patternItems : List Char → List PatternItem
  | [] => []
  | ['\\'] => [.exactly '\\']
  | '\\' :: escaped :: rest => .exactly escaped :: patternItems rest
  | character :: rest => .of character :: patternItems rest

/-- Whether the items account for the whole of a text; a run leaves any end of it to the items
behind. -/
def fitItems : List PatternItem → List Char → Bool
  | [], subject => subject.isEmpty
  | .run :: items, subject => subject.tails.any (fitItems items)
  | .any :: items, subject =>
      match subject with
      | [] => false
      | _ :: rest => fitItems items rest
  | .exactly character :: items, subject =>
      match subject with
      | [] => false
      | first :: rest => first == character && fitItems items rest

def isLike (pattern subject : String) : Bool :=
  fitItems (patternItems pattern.toList) subject.toList

theorem PatternItem.of_eq_exactly {character : Char} (percent : character ≠ '%')
    (underscore : character ≠ '_') : PatternItem.of character = .exactly character := by
  unfold PatternItem.of
  split <;> first | contradiction | rfl

/-- A character that is read on its own is no backslash. -/
theorem ne_backslash {character : Char} {rest : List Char}
    (last : character = '\\' → rest = [] → False)
    (followed : ∀ escaped others, character = '\\' → rest = escaped :: others → False) :
    character ≠ '\\' := by
  rintro rfl
  cases rest with
  | nil => exact last rfl rfl
  | cons escaped others => exact followed escaped others rfl rfl

theorem patternItems_cons {character : Char} (plain : character ≠ '\\') (rest : List Char) :
    patternItems (character :: rest) = .of character :: patternItems rest := by
  rw [patternItems]
  · exact fun same _ => plain same
  · exact fun _ _ same _ => plain same

/-! What fits. -/

theorem fitItems_nil {subject : List Char} : fitItems [] subject = true ↔ subject = [] :=
  List.isEmpty_iff

theorem fitItems_run {items : List PatternItem} {subject : List Char} :
    fitItems (.run :: items) subject = true ↔
      ∃ skipped rest, subject = skipped ++ rest ∧ fitItems items rest = true := by
  rw [fitItems, List.any_eq_true]
  constructor
  · rintro ⟨rest, ends, fits⟩
    rcases (List.mem_tails _ _).mp ends with ⟨skipped, rfl⟩
    exact ⟨skipped, rest, rfl, fits⟩
  · rintro ⟨skipped, rest, rfl, fits⟩
    exact ⟨rest, (List.mem_tails _ _).mpr (List.suffix_append skipped rest), fits⟩

theorem fitItems_exactly {character : Char} {items : List PatternItem} {subject : List Char} :
    fitItems (.exactly character :: items) subject = true ↔
      ∃ rest, subject = character :: rest ∧ fitItems items rest = true := by
  cases subject with
  | nil => simp [fitItems]
  | cons first rest => simp [fitItems]

/-- A last run takes whatever is left. -/
theorem fitItems_lastRun (subject : List Char) : fitItems [.run] subject = true :=
  fitItems_run.mpr ⟨subject, [], (List.append_nil subject).symm, rfl⟩

theorem fitItems_characters {text : List Char} {items : List PatternItem} {subject : List Char} :
    fitItems (text.map .exactly ++ items) subject = true ↔
      ∃ rest, subject = text ++ rest ∧ fitItems items rest = true := by
  induction text generalizing subject with
  | nil => simp
  | cons character text induction =>
      rw [List.map_cons, List.cons_append, fitItems_exactly]
      simp only [induction]
      constructor
      · rintro ⟨_, rfl, rest, rfl, fits⟩
        exact ⟨rest, rfl, fits⟩
      · rintro ⟨rest, rfl, fits⟩
        exact ⟨_, rfl, rest, rfl, fits⟩

/-! A least text that fits: nothing for a run, some letter for any character. -/

def leastFit : List PatternItem → List Char
  | [] => []
  | .run :: items => leastFit items
  | .any :: items => 'a' :: leastFit items
  | .exactly character :: items => character :: leastFit items

theorem fitItems_leastFit (items : List PatternItem) :
    fitItems items (leastFit items) = true := by
  induction items with
  | nil => rfl
  | cons item items induction =>
      cases item with
      | run => exact fitItems_run.mpr ⟨[], _, rfl, induction⟩
      | any => simpa [leastFit, fitItems] using induction
      | exactly character => exact fitItems_exactly.mpr ⟨_, rfl, induction⟩

namespace Anchor

/-! The ends of a pattern. -/

def opening : Anchor → List Char
  | .anywhere | .finish => ['%']
  | .start => []

def closing : Anchor → List Char
  | .anywhere | .start => ['%']
  | .finish => []

theorem toList_wrap (anchor : Anchor) (text : String) :
    (anchor.wrap text).toList = anchor.opening ++ (text.toList ++ anchor.closing) := by
  cases anchor <;> simp [wrap, opening, closing]

/-- The text stands in the subject, at the end of it that the anchor names. -/
def Finds (anchor : Anchor) (text subject : List Char) : Prop :=
  match anchor with
  | .anywhere => text <:+: subject
  | .start => text <+: subject
  | .finish => text <:+ subject

instance (anchor : Anchor) (text subject : List Char) : Decidable (anchor.Finds text subject) := by
  unfold Finds
  split <;> infer_instance

/-- A pattern takes each character of the text as it is: none is a percent sign or an
underscore, and no backslash has a character of the pattern behind it. -/
def Literal (anchor : Anchor) (text : List Char) : Prop :=
  '%' ∉ text ∧ '_' ∉ text ∧ '\\' ∉ (text ++ anchor.closing).dropLast

instance (anchor : Anchor) (text : List Char) : Decidable (anchor.Literal text) := by
  unfold Literal
  infer_instance

variable {anchor : Anchor}

theorem literal_nil : anchor.Literal [] := by
  cases anchor <;> decide

theorem literal_cons {character : Char} {text : List Char} :
    anchor.Literal (character :: text) ↔
      character ≠ '%' ∧ character ≠ '_' ∧ (character = '\\' → text ++ anchor.closing = []) ∧
        anchor.Literal text := by
  cases behind : text ++ anchor.closing with
  | nil =>
      rcases List.append_eq_nil_iff.mp behind with ⟨rfl, last⟩
      simp [Literal, last, eq_comm]
  | cons next others =>
      simp only [Literal, List.cons_append, behind, List.dropLast_cons_cons, List.mem_cons]
      grind

/-- Such a text fits nothing but itself. -/
theorem patternItems_of_literal {text : List Char} (literal : anchor.Literal text) :
    patternItems (text ++ anchor.closing) =
      text.map .exactly ++ patternItems anchor.closing := by
  induction text with
  | nil => rfl
  | cons character text induction =>
      rcases literal_cons.mp literal with ⟨percent, underscore, last, rest⟩
      by_cases escape : character = '\\'
      · rcases List.append_eq_nil_iff.mp (last escape) with ⟨rfl, closed⟩
        subst escape
        rw [closed]
        rfl
      · rw [List.cons_append, patternItems_cons escape,
          PatternItem.of_eq_exactly percent underscore, induction rest]
        rfl

/-- What stands for itself in a pattern makes a least fit no longer than the text is. -/
theorem length_leastFit_le (anchor : Anchor) (text : List Char) :
    (leastFit (patternItems (text ++ anchor.closing))).length ≤ text.length := by
  induction text using patternItems.induct with
  | case1 => cases anchor <;> decide
  | case2 => cases anchor <;> decide
  | case3 escaped rest induction =>
      simp only [List.cons_append, patternItems, leastFit, List.length_cons]
      omega
  | case4 character rest first second induction =>
      have plain := ne_backslash first second
      rw [List.cons_append, patternItems_cons plain]
      cases PatternItem.of character <;> simp only [leastFit, List.length_cons] <;> omega

/-- Where it is as long as the text, and the text at that, the text is taken literally. -/
theorem literal_of_leastFit {text : List Char}
    (same : leastFit (patternItems (text ++ anchor.closing)) = text) : anchor.Literal text := by
  induction text using patternItems.induct with
  | case1 => exact literal_nil
  | case2 => cases anchor <;> first | decide | exact absurd same (by decide)
  | case3 escaped rest induction =>
      have short := length_leastFit_le anchor rest
      have long := congrArg List.length same
      simp only [List.cons_append, patternItems, leastFit, List.length_cons] at long
      omega
  | case4 character rest first second induction =>
      have plain := ne_backslash first second
      rw [List.cons_append, patternItems_cons plain] at same
      unfold PatternItem.of at same
      split at same
      · have short := length_leastFit_le anchor rest
        have long := congrArg List.length same
        simp only [leastFit, List.length_cons] at long
        omega
      · simp [leastFit] at same
      · next percent underscore =>
          simp only [leastFit, List.cons.injEq, true_and] at same
          exact literal_cons.mpr ⟨percent, underscore, fun escape => absurd escape plain,
            induction same⟩

/-- A pattern made of a text that it takes literally fits the subjects that the text stands
in. -/
theorem fits_of_literal {text : List Char} (literal : anchor.Literal text)
    (subject : List Char) :
    fitItems (patternItems (anchor.opening ++ (text ++ anchor.closing))) subject = true ↔
      anchor.Finds text subject := by
  have items := patternItems_of_literal literal
  cases anchor with
  | anywhere =>
      have run : patternItems ('%' :: (text ++ ['%'])) =
          .run :: (text.map .exactly ++ [.run]) := by
        rw [patternItems_cons (by decide)]
        exact congrArg _ items
      simp only [opening, closing, List.singleton_append, run, fitItems_run, fitItems_characters,
        fitItems_lastRun, and_true, Finds]
      constructor
      · rintro ⟨skipped, _, rfl, rest, rfl⟩
        exact ⟨skipped, rest, by simp⟩
      · rintro ⟨skipped, rest, rfl⟩
        exact ⟨skipped, text ++ rest, by simp, rest, rfl⟩
  | start =>
      have plain : patternItems (text ++ ['%']) = text.map .exactly ++ [.run] := items
      simp only [opening, closing, List.nil_append, plain, fitItems_characters, fitItems_lastRun,
        and_true, Finds]
      constructor
      · rintro ⟨rest, rfl⟩
        exact List.prefix_append text rest
      · rintro ⟨rest, rfl⟩
        exact ⟨rest, rfl⟩
  | finish =>
      have run : patternItems ('%' :: (text ++ [])) = .run :: (text.map .exactly ++ []) := by
        rw [patternItems_cons (by decide)]
        exact congrArg _ items
      simp only [opening, closing, List.singleton_append, run, fitItems_run, fitItems_characters,
        fitItems_nil, Finds]
      constructor
      · rintro ⟨skipped, _, rfl, _, rfl, rfl⟩
        exact ⟨skipped, by simp⟩
      · rintro ⟨skipped, rfl⟩
        exact ⟨skipped, text, rfl, [], by simp, rfl⟩

theorem fitItems_opening (anchor : Anchor) (pattern : List Char) :
    fitItems (patternItems (anchor.opening ++ pattern)) (leastFit (patternItems pattern)) =
      true := by
  have run : patternItems ('%' :: pattern) = .run :: patternItems pattern :=
    patternItems_cons (by decide) pattern
  cases anchor with
  | anywhere | finish =>
      rw [opening, List.singleton_append, run]
      exact fitItems_leastFit (.run :: patternItems pattern)
  | start => exact fitItems_leastFit _

/-- A text as long as a subject that it stands in is that subject. -/
theorem Finds.eq_of_length_le {text subject : List Char} (finds : anchor.Finds text subject)
    (short : subject.length ≤ text.length) : text = subject := by
  cases anchor with
  | anywhere => exact List.IsInfix.eq_of_length_le finds short
  | start => exact List.IsPrefix.eq_of_length_le finds short
  | finish => exact List.IsSuffix.eq_of_length_le finds short

/-- The pattern for a text fits the subjects that the text stands in, and no others, exactly
where it takes the text literally. -/
theorem isLike_wrap_iff_finds (anchor : Anchor) (text : String) :
    (∀ subject : String, isLike (anchor.wrap text) subject = true ↔
      anchor.Finds text.toList subject.toList) ↔ anchor.Literal text.toList := by
  simp only [isLike, toList_wrap]
  constructor
  · intro finds
    -- The least fit is no longer than the text, so that finding the text in it leaves it equal.
    let least := leastFit (patternItems (text.toList ++ anchor.closing))
    have fits : anchor.Finds text.toList least := by
      have found := (finds (String.ofList least)).mp (by simpa using anchor.fitItems_opening _)
      rwa [String.toList_ofList] at found
    exact literal_of_leastFit (fits.eq_of_length_le (length_leastFit_le anchor _)).symm
  · intro literal subject
    exact fits_of_literal literal subject.toList

end Anchor

end EntitySql

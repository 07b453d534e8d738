import HartBoot.Proofs.Name

/-!
Contract: names that are made by several appends.

Owns:
- `Name.Addition`, one append as a value, and `Name.addAll`, what any number of them make of a name;
- `Name.unlimited`, the text that the same additions make without a limit;
- the law of truncation, which compares the two.

Each append is cut on its own. A character of several bytes that has no room can leave up to three
bytes free, and a shorter character of a later append may take them. So what is behind the first
cut is not always a part of the text that was meant, but it is never longer than that gap.

Does not own: what one append does (see `HartBoot.Proofs.Name`).
-/

namespace HartBoot.Name

/-! ## Additions -/

/-- A text that is appended to a name, with or without a `+` in front. -/
inductive Addition where
  | push (text : String)
  | join (text : String)
  deriving Repr

def Addition.apply (name : Name) : Addition → Appended
  | push text => name.push text
  | join text => name.join text

/-- What an addition puts behind a text for which there is no limit. -/
def Addition.added (text : String) : Addition → String
  | push suffix => suffix
  | join suffix => if text = "" then suffix else "+" ++ suffix

/-- The name behind some additions. -/
def addAll (name : Name) (additions : List Addition) : Name :=
  additions.foldl (fun name addition => (addition.apply name).name) name

/-- A text and what additions put behind it, one after the other. -/
def unlimitedFrom (text : String) (additions : List Addition) : String :=
  additions.foldl (fun text addition => text ++ addition.added text) text

/-- The text that additions make of nothing when there is no limit. -/
def unlimited (additions : List Addition) : String :=
  unlimitedFrom "" additions

/-- All of each addition is taken. -/
def Untruncated (name : Name) : List Addition → Prop
  | [] => True
  | addition :: rest =>
    (addition.apply name).whole ∧ Untruncated (addition.apply name).name rest

/-! ## Cutting a text in two parts -/

section Fitting

variable {room width : Nat} {front back chars : List Char}

theorem byteCount_append (front back : List Char) :
    byteCount (front ++ back) = byteCount front + byteCount back := by
  induction front with
  | nil => simp [byteCount]
  | cons char rest inductionHypothesis =>
    simp only [List.cons_append, byteCount, inductionHypothesis]
    omega

/-- Behind a part that fits, the rest has the room that is left. -/
theorem fitting_append_of_room (small : byteCount front ≤ room) :
    fitting room (front ++ back) = front ++ fitting (room - byteCount front) back := by
  induction front generalizing room with
  | nil => simp [byteCount]
  | cons char rest inductionHypothesis =>
    rw [byteCount] at small
    rw [List.cons_append, fitting, if_pos (by omega), inductionHypothesis (by omega), byteCount,
      Nat.sub_add_eq, List.cons_append]

/-- Behind a part that does not fit, nothing is taken. -/
theorem fitting_append_of_full (large : room < byteCount front) :
    fitting room (front ++ back) = fitting room front := by
  induction front generalizing room with
  | nil => simp [byteCount] at large
  | cons char rest inductionHypothesis =>
    rw [byteCount] at large
    by_cases small : char.utf8Size ≤ room
    · rw [List.cons_append, fitting, if_pos small, fitting, if_pos small,
        inductionHypothesis (by omega)]
    · rw [List.cons_append, fitting, if_neg small, fitting, if_neg small]

/-- What a cut leaves free is less than the character that had no room. -/
theorem lt_byteCount_fitting_add
    (narrow : ∀ char ∈ chars, char.utf8Size ≤ width)
    (large : room < byteCount chars) :
    room < byteCount (fitting room chars) + width := by
  induction chars generalizing room with
  | nil => simp [byteCount] at large
  | cons char rest inductionHypothesis =>
    rw [byteCount] at large
    by_cases small : char.utf8Size ≤ room
    · have behind :
          room - char.utf8Size < byteCount (fitting (room - char.utf8Size) rest) + width :=
        inductionHypothesis (fun other member => narrow other (List.mem_cons_of_mem _ member))
          (by omega)
      rw [fitting, if_pos small, byteCount]
      omega
    · have wide := narrow char List.mem_cons_self
      rw [fitting, if_neg small, byteCount]
      omega

end Fitting

/-! ## One addition -/

section Addition

variable {name : Name} {first second suffix rest : String} {width : Nat}

theorem toList_text_extend :
    (name.extend suffix).text.toList =
      name.text.toList ++ fitting (capacity - name.size) suffix.toList := by
  show (name.text ++ String.ofList (fitting (capacity - name.size) suffix.toList)).toList = _
  rw [String.toList_append, String.toList_ofList]

/-- Two texts are taken as one when there is room for the first. -/
theorem extend_extend (small : name.size + first.utf8ByteSize ≤ capacity) :
    (name.extend first).extend second = name.extend (first ++ second) := by
  have grown : (name.extend first).size = name.size + first.utf8ByteSize := by
    rw [size, text_extend_of_room small, String.utf8ByteSize_append]
    rfl
  have front : byteCount first.toList ≤ capacity - name.size := by
    rw [byteCount_toList]
    omega
  apply ext_text
  apply String.toList_injective
  rw [toList_text_extend, toList_text_extend, toList_text_extend, grown, String.toList_append,
    fitting_append_of_room front, fitting_of_byteCount_le front, byteCount_toList,
    Nat.sub_add_eq, List.append_assoc]

/-- An addition appends one text, whatever the name is. -/
theorem name_apply (addition : Addition) (name : Name) :
    (addition.apply name).name = name.extend (addition.added name.text) := by
  cases addition with
  | push text => exact name_push
  | join text =>
    by_cases empty : name.text = ""
    · rw [Addition.apply, Addition.added, if_pos empty, join_of_empty empty, name_push]
    · rw [Addition.apply, Addition.added, if_neg empty, name_join empty, name_push, name_push]
      by_cases room : name.size + 1 ≤ capacity
      · exact extend_extend room
      · have old : name.size ≤ capacity := name.fits
        have full : name.size = capacity := by omega
        rw [extend_of_full full, extend_of_full full, extend_of_full full]

theorem whole_apply_iff {addition : Addition} :
    (addition.apply name).whole ↔
      name.size + (addition.added name.text).utf8ByteSize ≤ capacity := by
  cases addition with
  | push text => exact whole_push_iff
  | join text =>
    by_cases empty : name.text = ""
    · rw [Addition.apply, Addition.added, if_pos empty, join_of_empty empty]
      exact whole_push_iff
    · rw [Addition.apply, Addition.added, if_neg empty, whole_join_iff empty,
        String.utf8ByteSize_append, Nat.add_assoc]
      rfl

/-- What a name takes of a text that does not fit is the most that fits of any longer text. -/
theorem longestFitting_extend (large : capacity < name.size + suffix.utf8ByteSize) :
    LongestFitting capacity (name.text ++ suffix ++ rest) (name.extend suffix).text := by
  have old : byteCount name.text.toList ≤ capacity := by
    rw [byteCount_toList]
    exact name.fits
  have cut : capacity - byteCount name.text.toList < byteCount suffix.toList := by
    rw [byteCount_toList, byteCount_toList]
    exact Nat.sub_lt_left_of_lt_add name.fits large
  have kept : fitting capacity (name.text ++ suffix ++ rest).toList =
      (name.extend suffix).text.toList := by
    rw [String.toList_append, String.toList_append, List.append_assoc,
      fitting_append_of_room old, fitting_append_of_full cut, toList_text_extend,
      byteCount_toList]
    rfl
  have longest := longestFitting_fitting capacity (name.text ++ suffix ++ rest)
  rwa [kept, String.ofList_toList] at longest

/-- A name that could not take all of a text is full up to less than one character. -/
theorem lt_size_extend_add
    (narrow : ∀ char ∈ suffix.toList, char.utf8Size ≤ width)
    (large : capacity < name.size + suffix.utf8ByteSize) :
    capacity < (name.extend suffix).size + width := by
  have old : name.size ≤ capacity := name.fits
  have cut : capacity - name.size < byteCount suffix.toList := by
    rw [byteCount_toList]
    omega
  have left := lt_byteCount_fitting_add narrow cut
  have grown : (name.extend suffix).size =
      name.size + byteCount (fitting (capacity - name.size) suffix.toList) := by
    rw [size, ← byteCount_toList, toList_text_extend, byteCount_append, byteCount_toList]
    rfl
  omega

end Addition

/-! ## Any number of additions -/

section Additions

variable {name : Name} {additions front back : List Addition} {addition : Addition}

theorem addAll_append (name : Name) (front back : List Addition) :
    name.addAll (front ++ back) = (name.addAll front).addAll back :=
  List.foldl_append

theorem unlimitedFrom_append (text : String) (front back : List Addition) :
    unlimitedFrom text (front ++ back) = unlimitedFrom (unlimitedFrom text front) back :=
  List.foldl_append

/-- Additions leave the text that is there as it is. -/
theorem exists_text_addAll (name : Name) (additions : List Addition) :
    ∃ filler, (name.addAll additions).text = name.text ++ filler := by
  induction additions generalizing name with
  | nil => exact ⟨"", String.append_empty.symm⟩
  | cons addition rest inductionHypothesis =>
    obtain ⟨filler, same⟩ := inductionHypothesis (addition.apply name).name
    show ∃ filler, ((addition.apply name).name.addAll rest).text = name.text ++ filler
    rw [same, name_apply]
    exact ⟨_, String.append_assoc⟩

theorem exists_unlimitedFrom (text : String) (additions : List Addition) :
    ∃ rest, unlimitedFrom text additions = text ++ rest := by
  induction additions generalizing text with
  | nil => exact ⟨"", String.append_empty.symm⟩
  | cons addition rest inductionHypothesis =>
    obtain ⟨behind, same⟩ := inductionHypothesis (text ++ addition.added text)
    show ∃ behind, unlimitedFrom (text ++ addition.added text) rest = text ++ behind
    rw [same]
    exact ⟨_, String.append_assoc⟩

/-- As long as nothing is cut, the limit does not show. -/
theorem text_addAll_of_untruncated (whole : Untruncated name additions) :
    (name.addAll additions).text = unlimitedFrom name.text additions := by
  induction additions generalizing name with
  | nil => rfl
  | cons addition rest inductionHypothesis =>
    obtain ⟨first, others⟩ := whole
    have taken : (addition.apply name).name.text = name.text ++ addition.added name.text := by
      rw [name_apply]
      exact text_extend_of_room (whole_apply_iff.mp first)
    show ((addition.apply name).name.addAll rest).text =
      unlimitedFrom (name.text ++ addition.added name.text) rest
    rw [inductionHypothesis others, taken]

/-- Either nothing is cut, or there is a first addition that is. -/
theorem untruncated_or_exists_first (name : Name) (additions : List Addition) :
    Untruncated name additions ∨
      ∃ front addition back,
        additions = front ++ addition :: back ∧ Untruncated name front ∧
          ¬ (addition.apply (name.addAll front)).whole := by
  induction additions generalizing name with
  | nil => exact .inl trivial
  | cons addition rest inductionHypothesis =>
    by_cases whole : (addition.apply name).whole
    · rcases inductionHypothesis (addition.apply name).name with
        all | ⟨front, cut, back, rfl, found⟩
      · exact .inl ⟨whole, all⟩
      · exact .inr ⟨addition :: front, cut, back, rfl, ⟨whole, found.1⟩, found.2⟩
    · exact .inr ⟨[], addition, rest, rfl, trivial, whole⟩

end Additions

/-! ## The law of truncation -/

section Truncation

variable {front back : List Addition} {addition : Addition} {text filler : String} {width : Nat}

/-- A name goes on being a front of a text only if nothing is put behind its longest front. -/
theorem front_iff_filler_eq_empty
    {name cut : Name}
    (longest : LongestFitting capacity text cut.text)
    (grown : name.text = cut.text ++ filler) :
    name.text.toList <+: text.toList ↔ filler = "" := by
  constructor
  · intro front
    have bounded := (longest.longest name.text front name.fits).length_le
    rw [grown, String.toList_append, List.length_append] at bounded
    have nothing : filler.toList = [] := List.eq_nil_of_length_eq_zero (by omega)
    exact String.toList_injective nothing
  · rintro rfl
    rw [grown, String.append_empty]
    exact longest.front

/-- The text that was meant, split behind an addition in front of which nothing is cut. -/
theorem exists_unlimited_eq
    (addition : Addition)
    (back : List Addition)
    (untruncated : Untruncated empty front) :
    ∃ rest, unlimited (front ++ addition :: back) =
      (empty.addAll front).text ++ addition.added (empty.addAll front).text ++ rest := by
  have before : unlimited front = (empty.addAll front).text :=
    (text_addAll_of_untruncated untruncated).symm
  rw [unlimited, unlimitedFrom_append, ← unlimited, before]
  exact exists_unlimitedFrom _ back

/-- At the first addition that is cut, a name has the longest front of what was meant. -/
theorem longestFitting_at_cut
    (back : List Addition)
    (untruncated : Untruncated empty front)
    (cut : ¬ (addition.apply (empty.addAll front)).whole) :
    LongestFitting capacity (unlimited (front ++ addition :: back))
      (empty.addAll (front ++ [addition])).text := by
  obtain ⟨rest, meant⟩ := exists_unlimited_eq addition back untruncated
  have taken : empty.addAll (front ++ [addition]) =
      (empty.addAll front).extend (addition.added (empty.addAll front).text) := by
    rw [addAll_append, ← name_apply]
    rfl
  rw [meant, taken]
  exact longestFitting_extend (Nat.lt_of_not_le (mt whole_apply_iff.mpr cut))

/-- What comes behind a cut is shorter than the longest character of the addition that was cut. -/
theorem utf8ByteSize_filler_lt
    {name later : Name}
    (narrow : ∀ char ∈ (addition.added name.text).toList, char.utf8Size ≤ width)
    (cut : ¬ (addition.apply name).whole)
    (grown : later.text = (addition.apply name).name.text ++ filler) :
    filler.utf8ByteSize < width := by
  have full := lt_size_extend_add narrow (Nat.lt_of_not_le (mt whole_apply_iff.mpr cut))
  have fits := later.fits
  rw [grown, String.utf8ByteSize_append, name_apply] at fits
  rw [size] at full
  omega

end Truncation

/-- Either no addition is cut, and a name has the text that was meant, or there is a first one that
is cut. Behind that one the name has the longest front that fits of the text that was meant, and all
later additions put at most three bytes behind it. The name is a front of that text exactly when
they put nothing there, and always when no character has more than one byte. -/
theorem additions_fill_less_than_a_character (additions : List Addition) :
    let name := empty.addAll additions
    let meant := unlimited additions
    ((Untruncated empty additions ∧ name.text = meant) ∨
        ∃ front addition back filler,
          additions = front ++ addition :: back ∧
            Untruncated empty front ∧
            ¬ (addition.apply (empty.addAll front)).whole ∧
            LongestFitting capacity meant (empty.addAll (front ++ [addition])).text ∧
            name.text = (empty.addAll (front ++ [addition])).text ++ filler ∧
            filler.utf8ByteSize ≤ 3 ∧
            (name.text.toList <+: meant.toList ↔ filler = "")) ∧
      ((∀ char ∈ meant.toList, char.utf8Size = 1) → name.text.toList <+: meant.toList) := by
  intro name meant
  rcases untruncated_or_exists_first empty additions with
    whole | ⟨front, addition, back, rfl, untruncated, cut⟩
  · have same : name.text = meant := text_addAll_of_untruncated whole
    refine ⟨.inl ⟨whole, same⟩, fun _ => ?_⟩
    rw [same]
  · have split : front ++ addition :: back = (front ++ [addition]) ++ back := by simp
    have last : empty.addAll (front ++ [addition]) =
        (addition.apply (empty.addAll front)).name := addAll_append empty front [addition]
    obtain ⟨filler, grown⟩ := exists_text_addAll (empty.addAll (front ++ [addition])) back
    rw [← addAll_append, ← split] at grown
    have longest := longestFitting_at_cut back untruncated cut
    have narrow : ∀ width, (∀ char ∈ meant.toList, char.utf8Size ≤ width) →
        filler.utf8ByteSize < width := by
      intro width bounded
      obtain ⟨rest, same⟩ := exists_unlimited_eq addition back untruncated
      apply utf8ByteSize_filler_lt _ cut (last ▸ grown)
      intro char member
      apply bounded
      show char ∈ (unlimited (front ++ addition :: back)).toList
      simp [same, member]
    constructor
    · have short := narrow 4 fun char _ => char.utf8Size_le_four
      exact .inr ⟨front, addition, back, filler, rfl, untruncated, cut, longest, grown, by omega,
        front_iff_filler_eq_empty longest grown⟩
    · intro narrowest
      have nothing := narrow 1 fun char member => (narrowest char member).le
      rw [front_iff_filler_eq_empty longest grown]
      exact String.utf8ByteSize_eq_zero_iff.mp (by omega)

/-- A name of 254 bytes has no room for an `é`, but then it has for a `b`. -/
theorem toList_text_behind_gap {long : String} (width : long.utf8ByteSize = 254) :
    (empty.addAll [.push long, .push "é", .push "b"]).text.toList = long.toList ++ ['b'] := by
  have filled : (empty.extend long).text = long := by
    rw [text_extend_of_room (by rw [width]; decide)]
    exact String.empty_append
  have refused : (empty.extend long).extend "é" = empty.extend long := by
    apply ext_text
    apply String.toList_injective
    rw [toList_text_extend, size, filled, width, show fitting (capacity - 254) "é".toList = [] by
      decide, List.append_nil]
  show (((empty.push long).name.push "é").name.push "b").name.text.toList = _
  rw [name_push, name_push, name_push, refused, toList_text_extend, size, filled, width]
  congr 1

/-- The `b` takes the place of the `é`, so the name is no front of what was meant. -/
theorem addition_fills_gap :
    let additions := [.push (String.ofList (List.replicate 254 'a')), .push "é", .push "b"]
    ¬ (empty.addAll additions).text.toList <+: (unlimited additions).toList := by
  intro additions
  have width : (String.ofList (List.replicate 254 'a')).utf8ByteSize = 254 := by
    rw [utf8ByteSize_ofList]
    decide +kernel
  have meant : (unlimited additions).toList = List.replicate 254 'a' ++ ['é', 'b'] := by
    show ("" ++ String.ofList (List.replicate 254 'a') ++ "é" ++ "b").toList = _
    simp only [String.toList_append, String.toList_ofList, List.append_assoc]
    rfl
  rw [toList_text_behind_gap width, meant, String.toList_ofList, List.prefix_append_right_inj]
  decide

end HartBoot.Name

import JavaDebug.Addressing
import Mathlib.Data.List.TakeWhile

/-!
Names of classes as they are printed and as they are looked up. A name is printed
from the descriptor of a loaded class, and descriptors are rebuilt from the name in
three places. The reads know both spellings of a class that the JVM made up a name
for; arming and re-arming know the one with a slash. So a printed name resolves back
unless the class is hidden, or its own name ends as the selector of a loader does.
-/
namespace JavaDebug.ClassNames

open Addressing

section Code

def is_ascii_digit (c : Char) : Bool := '0' ≤ c ∧ c ≤ '9'

def begins_with_digit (s : List Char) : Bool := s.head?.any is_ascii_digit

def slash_to_dot (c : Char) : Char := if c = '/' then '.' else c

def dot_to_slash (c : Char) : Char := if c = '.' then '/' else c

/-- A slash stays before a segment that begins with a digit. -/
def decode_segments : List Char → List Char
  | [] => []
  | c :: rest =>
    if c = '/' then (if begins_with_digit rest then '/' else '.') :: decode_segments rest
    else c :: decode_segments rest

def decode_internal_name (internal : List Char) : List Char :=
  match internal.dropWhile (· ≠ '.') with
  | _ :: assigned_by_the_vm =>
    (internal.takeWhile (· ≠ '.')).map slash_to_dot ++ '/' :: assigned_by_the_vm
  | [] => decode_segments internal

def decode_signature (sig : List Char) : List Char :=
  let dims := (sig.takeWhile (· = '[')).length
  let base := match sig.dropWhile (· = '[') with
    | 'L' :: body => decode_internal_name (if body.getLast? = some ';' then body.dropLast else body)
    | 'Z' :: _ => "boolean".toList
    | 'B' :: _ => "byte".toList
    | 'C' :: _ => "char".toList
    | 'S' :: _ => "short".toList
    | 'I' :: _ => "int".toList
    | 'J' :: _ => "long".toList
    | 'F' :: _ => "float".toList
    | 'D' :: _ => "double".toList
    | 'V' :: _ => "void".toList
    | _ => sig
  base ++ (List.replicate dims "[]".toList).flatten

/-- What stands before and after the last occurrence of a character. -/
def rsplit_once (sep : Char) (s : List Char) : Option (List Char × List Char) :=
  match s.reverse.dropWhile (· ≠ sep) with
  | _ :: before => some (before.reverse, (s.reverse.takeWhile (· ≠ sep)).reverse)
  | [] => none

def split_loader_selector (dotted : List Char) : List Char × Option ℕ :=
  match rsplit_once '@' dotted with
  | none => (dotted, none)
  | some (name, sel) =>
    match strip_prefix ['0', 'x'] sel with
    | none => (dotted, none)
    | some hex =>
      match from_str_radix_16 hex with
      | some id => (name, some id)
      | none => (dotted, none)

def descriptor_of (internal : List Char) : List Char := 'L' :: (internal ++ [';'])

def descriptor_candidates (class_name : List Char) : List (List Char) :=
  let internal := class_name.map dot_to_slash
  let second := match rsplit_once '/' internal with
    | some (binary_name, assigned_by_the_vm) =>
      if begins_with_digit assigned_by_the_vm then
        [descriptor_of (binary_name ++ '.' :: assigned_by_the_vm)]
      else []
    | none => []
  descriptor_of internal :: second

def signature_for_dotted (dotted : List Char) : List Char :=
  if dotted.head? = some 'L' ∧ dotted.getLast? = some ';' then dotted
  else descriptor_of (dotted.map dot_to_slash)

/-- The signature that re-arming builds from the pattern of a stop point. -/
def rearm_signature (class_pattern : List Char) : List Char :=
  descriptor_of (class_pattern.map dot_to_slash)

end Code

section Loaded

/-- A name in the class file's spelling, no segment after a slash being empty or beginning with a
digit. -/
structure BinaryName (b : List Char) : Prop where
  ne_nil : b ≠ []
  chars : ∀ c ∈ b, c ≠ '.' ∧ c ≠ ';' ∧ c ≠ '['
  segments : ∀ x y, b = x ++ '/' :: y → ∃ c, y.head? = some c ∧ c ≠ '/' ∧ is_ascii_digit c = false

/-- What the JVM appends to a name that it makes up. -/
structure Assigned (s : List Char) : Prop where
  chars : ∀ c ∈ s, c ≠ '.' ∧ c ≠ ';' ∧ c ≠ '[' ∧ c ≠ '/'
  digit : begins_with_digit s = true

inductive Kind
  | ordinary
  | anonymous (assigned : List Char)
  | hidden (assigned : List Char)

def Kind.Sound : Kind → Prop
  | .ordinary => True
  | .anonymous s => Assigned s
  | .hidden s => Assigned s

/-- A class or interface as the JVM spells it. -/
structure LoadedClass where
  binary : List Char
  kind : Kind
  binary_name : BinaryName binary
  sound : kind.Sound

def Kind.spelled (b : List Char) : Kind → List Char
  | .ordinary => b
  | .anonymous s => b ++ '/' :: s
  | .hidden s => b ++ '.' :: s

variable (c : LoadedClass)

def LoadedClass.internal : List Char := c.kind.spelled c.binary

def LoadedClass.descriptor : List Char := descriptor_of c.internal

def LoadedClass.printed : List Char := decode_signature c.descriptor

inductive Path
  | read
  | arming
  | rearming

/-- The descriptors that are tried for a name. -/
def tried : Path → List Char → List (List Char)
  | .read, name => descriptor_candidates (split_loader_selector name).1
  | .arming, name => [signature_for_dotted name]
  | .rearming, name => [rearm_signature name]

/-- The printed name leads back to the class, and to no class that is printed otherwise and leads
back here. -/
structure ResolvesBack (c : LoadedClass) : Prop where
  back : ∀ path, c.descriptor ∈ tried path c.printed
  apart : ∀ path (c' : LoadedClass), c.descriptor ∈ tried path c'.printed →
    c'.descriptor ∈ tried path c.printed → c.printed = c'.printed

end Loaded

section Printing

theorem takeWhile_split (p : Char → Bool) (x y : List Char) (d : Char) (hx : ∀ c ∈ x, p c = true)
    (hd : p d = false) : (x ++ d :: y).takeWhile p = x ∧ (x ++ d :: y).dropWhile p = d :: y := by
  rw [List.takeWhile_append_of_pos hx, List.dropWhile_append_of_pos hx]
  simp [hd]

theorem rsplit_once_append (sep : Char) (x y : List Char) (hy : sep ∉ y) :
    rsplit_once sep (x ++ sep :: y) = some (x, y) := by
  have hall : ∀ c ∈ y.reverse, (fun c => decide (c ≠ sep)) c = true := by
    intro c hc
    apply decide_eq_true
    rintro rfl
    exact hy (List.mem_reverse.mp hc)
  have hrev : (x ++ sep :: y).reverse = y.reverse ++ sep :: x.reverse := by simp
  obtain ⟨htake, hdrop⟩ := takeWhile_split _ y.reverse x.reverse sep hall (by simp)
  rw [rsplit_once, hrev, htake, hdrop]
  simp

theorem rsplit_once_some (sep : Char) (s x y : List Char) (h : rsplit_once sep s = some (x, y)) :
    s = x ++ sep :: y ∧ sep ∉ y := by
  rw [rsplit_once] at h
  rcases hdrop : s.reverse.dropWhile (· ≠ sep) with _ | ⟨c, before⟩
  · rw [hdrop] at h
    simp at h
  · rw [hdrop] at h
    obtain ⟨rfl, rfl⟩ := Prod.mk.inj (Option.some.inj h)
    have hc : c = sep := by
      have := List.head?_dropWhile_not (fun c => decide (c ≠ sep)) s.reverse
      rw [hdrop] at this
      simpa using this
    have hsplit := List.takeWhile_append_dropWhile (p := fun c => decide (c ≠ sep)) (l := s.reverse)
    rw [hdrop, hc] at hsplit
    constructor
    · have := congrArg List.reverse hsplit
      simpa using this.symm
    · intro hmem
      have := List.mem_takeWhile_imp (List.mem_reverse.mp hmem)
      simp at this

/-- A text with every dot turned into a slash. -/
def flat (s : List Char) : List Char := s.map dot_to_slash

variable (s : List Char) (c : LoadedClass)

theorem flat_length : (flat s).length = s.length := List.length_map _

theorem flat_append (s t : List Char) : flat (s ++ t) = flat s ++ flat t := List.map_append

theorem flat_id (h : '.' ∉ s) : flat s = s := by
  induction s with
  | nil => rfl
  | cons c s ih =>
    have hc : c ≠ '.' := fun hc => h (hc ▸ List.mem_cons_self)
    rw [flat, List.map_cons, dot_to_slash, if_neg hc]
    exact congrArg (c :: ·) (ih fun hm => h (List.mem_cons_of_mem c hm))

theorem flat_flat : flat (flat s) = flat s := by
  rw [flat, flat, List.map_map]
  refine List.map_congr_left fun c _ => ?_
  by_cases hc : c = '.'
  · simp [dot_to_slash, hc]
  · simp [dot_to_slash, hc]

theorem flat_slash_to_dot : flat (s.map slash_to_dot) = flat s := by
  rw [flat, flat, List.map_map]
  refine List.map_congr_left fun c _ => ?_
  by_cases hc : c = '/'
  · simp [dot_to_slash, slash_to_dot, hc]
  · simp [slash_to_dot, hc]

theorem flat_mem (d : Char) (hdot : d ≠ '.') (hslash : d ≠ '/') : d ∈ flat s ↔ d ∈ s := by
  rw [flat, List.mem_map]
  constructor
  · rintro ⟨c, hc, heq⟩
    by_cases hcd : c = '.'
    · rw [dot_to_slash, if_pos hcd] at heq
      exact absurd heq.symm hslash
    · rw [dot_to_slash, if_neg hcd] at heq
      exact heq ▸ hc
  · exact fun h => ⟨d, h, by rw [dot_to_slash, if_neg hdot]⟩

theorem flat_descriptor : flat (descriptor_of s) = descriptor_of (flat s) := by
  simp [flat, descriptor_of, dot_to_slash]

theorem descriptor_inj (s t : List Char) (h : descriptor_of s = descriptor_of t) : s = t :=
  List.append_cancel_right (List.cons.inj h).2

theorem descriptor_length : (descriptor_of s).length = s.length + 2 := by
  simp [descriptor_of]

theorem decode_no_slash (h : '/' ∉ s) : decode_segments s = s := by
  induction s with
  | nil => rfl
  | cons c s ih =>
    have hc : c ≠ '/' := fun hc => h (hc ▸ List.mem_cons_self)
    rw [decode_segments, if_neg hc, ih fun hm => h (List.mem_cons_of_mem c hm)]

theorem decode_binary (b tail : List Char)
    (hb : ∀ x y, b = x ++ '/' :: y → ∃ c, y.head? = some c ∧ c ≠ '/' ∧ is_ascii_digit c = false) :
    decode_segments (b ++ tail) = b.map slash_to_dot ++ decode_segments tail := by
  induction b with
  | nil => rfl
  | cons c b ih =>
    have hrest := ih fun x y hxy => hb (c :: x) y (by rw [hxy]; rfl)
    rw [List.cons_append, decode_segments, hrest, List.map_cons, slash_to_dot]
    by_cases hc : c = '/'
    · obtain ⟨d, hd, -, hdigit⟩ := hb [] b (by rw [hc]; rfl)
      have hfirst : begins_with_digit (b ++ tail) = false := by
        rw [begins_with_digit, List.head?_append, hd]
        simpa using hdigit
      rw [if_pos hc, if_pos hc, hfirst]
      rfl
    · rw [if_neg hc, if_neg hc]
      rfl

def Kind.tail : Kind → List Char
  | .ordinary => []
  | .anonymous s => '/' :: s
  | .hidden s => '/' :: s

theorem decode_descriptor : c.printed = decode_internal_name c.internal := by
  have hbody : (c.internal ++ [';']).getLast? = some ';' := List.getLast?_concat
  simp [LoadedClass.printed, LoadedClass.descriptor, decode_signature, descriptor_of, hbody]

theorem no_dot : '.' ∉ c.binary := fun h => (c.binary_name.chars '.' h).1 rfl

theorem decode_no_dot (h : '.' ∉ s) : decode_internal_name s = decode_segments s := by
  have hdrop : s.dropWhile (· ≠ '.') = [] := by
    rw [List.dropWhile_eq_nil_iff]
    intro c hc
    apply decide_eq_true
    rintro rfl
    exact h hc
  rw [decode_internal_name, hdrop]

theorem printed_eq : c.printed = c.binary.map slash_to_dot ++ c.kind.tail := by
  obtain ⟨b, kind, hb, hsound⟩ := c
  have hdot := no_dot ⟨b, kind, hb, hsound⟩
  rw [decode_descriptor]
  cases kind with
  | ordinary =>
    have := decode_binary b [] hb.segments
    rw [List.append_nil] at this
    exact (decode_no_dot b hdot).trans this
  | anonymous s =>
    have hs : Assigned s := hsound
    have hno : '.' ∉ b ++ '/' :: s := by
      intro hm
      rcases List.mem_append.mp hm with h | h
      · exact hdot h
      · exact (hs.chars '.' (by simpa using h)).1 rfl
    have htail : decode_segments ('/' :: s) = '/' :: s := by
      rw [decode_segments, if_pos rfl, hs.digit,
        decode_no_slash s fun h => (hs.chars '/' h).2.2.2 rfl]
      rfl
    change decode_internal_name (b ++ '/' :: s) = _
    rw [decode_no_dot _ hno, decode_binary b _ hb.segments, htail]
    rfl
  | hidden s =>
    have hall : ∀ d ∈ b, (fun d => decide (d ≠ '.')) d = true := by
      intro d hd
      apply decide_eq_true
      rintro rfl
      exact hdot hd
    obtain ⟨htake, hdrop⟩ := takeWhile_split _ b s '.' hall (by simp)
    change decode_internal_name (b ++ '.' :: s) = _
    rw [decode_internal_name, hdrop, htake]
    rfl

theorem flat_internal : flat c.internal = c.binary ++ c.kind.tail := by
  obtain ⟨b, kind, hb, hsound⟩ := c
  have hflat := flat_id b (no_dot ⟨b, kind, hb, hsound⟩)
  cases kind with
  | ordinary => exact hflat.trans (List.append_nil b).symm
  | anonymous s =>
    have hs := flat_id s fun h => ((show Assigned s from hsound).chars '.' h).1 rfl
    change flat (b ++ '/' :: s) = b ++ '/' :: s
    rw [flat_append, hflat]
    exact congrArg (b ++ '/' :: ·) hs
  | hidden s =>
    have hs := flat_id s fun h => ((show Assigned s from hsound).chars '.' h).1 rfl
    change flat (b ++ '.' :: s) = b ++ '/' :: s
    rw [flat_append, hflat]
    exact congrArg (b ++ '/' :: ·) hs

theorem flat_tail (k : Kind) (h : k.Sound) : flat k.tail = k.tail := by
  cases k with
  | ordinary => rfl
  | anonymous s | hidden s =>
    exact congrArg ('/' :: ·) (flat_id s fun hm => ((show Assigned s from h).chars '.' hm).1 rfl)

theorem flat_printed : flat c.printed = flat c.internal := by
  rw [printed_eq, flat_append, flat_slash_to_dot, flat_internal, flat_id _ (no_dot c),
    flat_tail _ c.sound]

theorem printed_length : c.printed.length = c.internal.length := by
  rw [← flat_length, flat_printed, flat_length]

/-- Classes that differ only in which separator stands where are printed alike. -/
theorem printed_of_flat (c c' : LoadedClass) (h : flat c.internal = flat c'.internal) :
    c.printed = c'.printed := by
  rw [flat_internal, flat_internal] at h
  rw [printed_eq, printed_eq]
  have hinner : ∀ (b b' s : List Char), BinaryName b → Assigned s → b ≠ b' ++ '/' :: s := by
    intro b b' s hb hs heq
    obtain ⟨d, hd, -, hdigit⟩ := hb.segments b' s heq
    have := hs.digit
    rw [begins_with_digit, hd] at this
    simp [hdigit] at this
  have htails : ∀ k : Kind, k.Sound → k.tail = [] ∨ ∃ s, k.tail = '/' :: s ∧ Assigned s := by
    intro k hk
    cases k with
    | ordinary => exact .inl rfl
    | anonymous s | hidden s => exact .inr ⟨s, rfl, hk⟩
  rcases htails c.kind c.sound with hnil | ⟨s, hs, hsound⟩
  · rcases htails c'.kind c'.sound with hnil' | ⟨s', hs', hsound'⟩
    · rw [hnil, hnil', List.append_nil, List.append_nil] at h
      rw [h, hnil, hnil']
    · rw [hnil, hs', List.append_nil] at h
      exact absurd h (hinner _ _ _ c.binary_name hsound')
  · rcases htails c'.kind c'.sound with hnil' | ⟨s', hs', hsound'⟩
    · rw [hs, hnil', List.append_nil] at h
      exact absurd h.symm (hinner _ _ _ c'.binary_name hsound)
    · rw [hs, hs'] at h ⊢
      have hsplit := rsplit_once_append '/' c.binary s fun hm => (hsound.chars '/' hm).2.2.2 rfl
      have hsplit' := rsplit_once_append '/' c'.binary s' fun hm =>
        (hsound'.chars '/' hm).2.2.2 rfl
      rw [h, hsplit'] at hsplit
      obtain ⟨hb, hs⟩ := Prod.mk.inj (Option.some.inj hsplit)
      rw [hb, hs]

end Printing

section Tries

theorem split_cases (name : List Char) :
    (split_loader_selector name).1 = name ∧ (split_loader_selector name).2 = none ∨
      (split_loader_selector name).1.length < name.length ∧
        (split_loader_selector name).2 ≠ none := by
  rw [split_loader_selector]
  rcases hsplit : rsplit_once '@' name with _ | ⟨front, sel⟩
  · exact .inl ⟨rfl, rfl⟩
  · dsimp only
    rcases strip_prefix ['0', 'x'] sel with _ | hex
    · exact .inl ⟨rfl, rfl⟩
    · dsimp only
      rcases from_str_radix_16 hex with _ | id
      · exact .inl ⟨rfl, rfl⟩
      · refine .inr ⟨?_, by simp⟩
        rw [(rsplit_once_some '@' name front sel hsplit).1, List.length_append, List.length_cons]
        dsimp only
        omega

theorem candidate_flat (name e : List Char) (h : e ∈ descriptor_candidates name) :
    flat e = descriptor_of (flat name) := by
  rw [descriptor_candidates] at h
  rcases List.mem_cons.mp h with rfl | hsecond
  · exact (flat_descriptor _).trans (congrArg descriptor_of (flat_flat name))
  · rcases hsplit : rsplit_once '/' (name.map dot_to_slash) with _ | ⟨x, y⟩
    · rw [hsplit] at hsecond
      simp at hsecond
    · rw [hsplit] at hsecond
      dsimp only at hsecond
      split_ifs at hsecond
      · have hname : flat name = x ++ '/' :: y := (rsplit_once_some '/' _ x y hsplit).1
        have hflat : flat (x ++ '.' :: y) = flat (flat name) := by
          rw [hname, flat_append, flat_append]
          rfl
        rw [List.mem_singleton.mp hsecond, flat_descriptor, hflat, flat_flat]
      · simp at hsecond

/-- The part of a printed name that a path looks up. -/
def looked_up : Path → List Char → List Char
  | .read, name => (split_loader_selector name).1
  | .arming, name => name
  | .rearming, name => name

theorem looked_up_length (path : Path) (name : List Char) :
    (looked_up path name).length ≤ name.length ∧
      ((looked_up path name).length = name.length → looked_up path name = name) := by
  cases path with
  | arming | rearming => exact ⟨le_refl _, fun _ => rfl⟩
  | read =>
    rcases split_cases name with ⟨hsame, -⟩ | ⟨hless, -⟩
    · exact ⟨by rw [looked_up, hsame], fun _ => hsame⟩
    · exact ⟨hless.le, fun heq => absurd heq hless.ne⟩

variable (c : LoadedClass)

theorem printed_no_semicolon : ';' ∉ c.printed := by
  intro h
  rw [← flat_mem _ _ (by decide) (by decide), flat_printed, flat_internal] at h
  rcases List.mem_append.mp h with hb | htail
  · exact (c.binary_name.chars ';' hb).2.1 rfl
  · have hsound := c.sound
    rcases hk : c.kind with _ | s | s
    all_goals rw [hk] at htail hsound
    · exact absurd htail List.not_mem_nil
    all_goals
      have hs : Assigned s := hsound
      rcases List.mem_cons.mp htail with heq | hmem
      · exact absurd heq (by decide)
      · exact (hs.chars ';' hmem).2.1 rfl

theorem signature_printed : signature_for_dotted c.printed = descriptor_of (flat c.internal) := by
  have hlast : c.printed.getLast? ≠ some ';' := fun h =>
    printed_no_semicolon c (List.mem_of_getLast? h)
  rw [signature_for_dotted, if_neg fun h => hlast h.2, ← flat_printed]
  rfl

theorem tried_flat (path : Path) (c : LoadedClass) (e : List Char) (h : e ∈ tried path c.printed) :
    flat e = descriptor_of (flat (looked_up path c.printed)) := by
  cases path with
  | read => exact candidate_flat _ e h
  | arming =>
    rw [List.mem_singleton.mp h, signature_printed, flat_descriptor, flat_flat, ← flat_printed]
    rfl
  | rearming =>
    rw [List.mem_singleton.mp h]
    exact (flat_descriptor _).trans (congrArg descriptor_of (flat_flat _))

theorem apart (path : Path) (c c' : LoadedClass) (h : c.descriptor ∈ tried path c'.printed)
    (h' : c'.descriptor ∈ tried path c.printed) : c.printed = c'.printed := by
  have hflat : ∀ d d' : LoadedClass, d.descriptor ∈ tried path d'.printed →
      flat d.internal = flat (looked_up path d'.printed) := by
    intro d d' hd
    have := tried_flat path d' _ hd
    rw [LoadedClass.descriptor, flat_descriptor] at this
    exact descriptor_inj _ _ this
  have hlen : ∀ d d' : LoadedClass, d.descriptor ∈ tried path d'.printed →
      d.internal.length = (looked_up path d'.printed).length := fun d d' hd => by
    rw [← flat_length, hflat d d' hd, flat_length]
  obtain ⟨hle, heq⟩ := looked_up_length path c'.printed
  have hle' := (looked_up_length path c.printed).1
  have hone := hlen c c' h
  have htwo := hlen c' c h'
  rw [printed_length] at hle heq hle'
  refine printed_of_flat c c' ?_
  rw [hflat c c' h, heq (by omega), flat_printed]

theorem read_back :
    c.descriptor ∈ tried .read c.printed ↔ (split_loader_selector c.printed).2 = none := by
  rcases split_cases c.printed with ⟨hsame, hnone⟩ | ⟨hless, hsome⟩
  · refine iff_of_true ?_ hnone
    rw [tried, hsame, descriptor_candidates]
    have hinternal : c.printed.map dot_to_slash = c.binary ++ c.kind.tail :=
      (flat_printed c).trans (flat_internal c)
    rw [hinternal]
    obtain ⟨b, kind, hb, hsound⟩ := c
    cases kind with
    | ordinary =>
      refine List.mem_cons.mpr (.inl ?_)
      exact congrArg descriptor_of (List.append_nil b).symm
    | anonymous s => exact List.mem_cons_self
    | hidden s =>
      have hs : Assigned s := hsound
      have hsplit := rsplit_once_append '/' b s fun hm => (hs.chars '/' hm).2.2.2 rfl
      refine List.mem_cons_of_mem _ ?_
      simp only [Kind.tail, hsplit, hs.digit, if_true]
      exact List.mem_cons_self
  · refine iff_of_false (fun h => ?_) hsome
    have hflat := candidate_flat _ _ h
    have hlen := congrArg List.length hflat
    rw [flat_length, LoadedClass.descriptor, descriptor_length, descriptor_length, flat_length,
      ← printed_length] at hlen
    omega

theorem armed_back : c.descriptor = descriptor_of (flat c.internal) ↔ ∀ s, c.kind ≠ .hidden s := by
  obtain ⟨b, kind, hb, hsound⟩ := c
  have hdot := no_dot ⟨b, kind, hb, hsound⟩
  rw [flat_internal, LoadedClass.descriptor]
  cases kind with
  | ordinary =>
    refine iff_of_true ?_ (by simp)
    exact congrArg descriptor_of (List.append_nil b).symm
  | anonymous s => exact iff_of_true rfl (by simp)
  | hidden s =>
    refine iff_of_false (fun h => ?_) fun h => h s rfl
    have hsame : b ++ '.' :: s = b ++ '/' :: s := descriptor_inj _ _ h
    exact absurd (List.cons.inj (List.append_cancel_left hsame)).1 (by decide)

end Tries

/-- A printed name resolves back everywhere exactly when its class is not hidden and the name does
not end as a selector of a loader. -/
theorem resolves_back_iff (c : LoadedClass) : ResolvesBack c ↔
    (∀ s, c.kind ≠ .hidden s) ∧ (split_loader_selector c.printed).2 = none := by
  have harming : c.descriptor ∈ tried .arming c.printed ↔ ∀ s, c.kind ≠ .hidden s := by
    rw [tried, List.mem_singleton, signature_printed, armed_back]
  have hrearming : c.descriptor ∈ tried .rearming c.printed ↔ ∀ s, c.kind ≠ .hidden s := by
    have hsig : rearm_signature c.printed = descriptor_of (flat c.internal) := by
      rw [← flat_printed]
      rfl
    rw [tried, List.mem_singleton, hsig, armed_back]
  constructor
  · exact fun h => ⟨harming.mp (h.back .arming), (read_back c).mp (h.back .read)⟩
  · rintro ⟨hkind, hname⟩
    refine ⟨fun path => ?_, fun path c' h h' => apart path c c' h h'⟩
    cases path with
    | read => exact (read_back c).mpr hname
    | arming => exact harming.mpr hkind
    | rearming => exact hrearming.mpr hkind

/-- The class of a lambda of `Probe`, on a JVM that hides it. -/
def lambda_class : LoadedClass where
  binary := "Probe".toList
  kind := .hidden "0x9204".toList
  binary_name := by
    have hslash : '/' ∉ "Probe".toList := by decide
    refine ⟨by decide, fun c hc => ?_, fun x y heq => absurd ?_ hslash⟩
    · have hall : ("Probe".toList.all fun c => decide (c ≠ '.' ∧ c ≠ ';' ∧ c ≠ '[')) = true := by
        decide
      exact of_decide_eq_true (List.all_eq_true.mp hall c hc)
    · rw [heq]
      exact List.mem_append_right x List.mem_cons_self
  sound := by
    refine ⟨fun c hc => ?_, by decide⟩
    have hall : ("0x9204".toList.all fun c =>
        decide (c ≠ '.' ∧ c ≠ ';' ∧ c ≠ '[' ∧ c ≠ '/')) = true := by decide
    exact of_decide_eq_true (List.all_eq_true.mp hall c hc)

/-- Arming tries `LProbe/0x9204;` for a class that is spelled `LProbe.0x9204;`. -/
theorem hidden_not_armed : ¬ ∀ c : LoadedClass, ResolvesBack c := by
  intro h
  have hback := (h lambda_class).back .arming
  exact absurd (List.mem_singleton.mp hback) (by decide)

end JavaDebug.ClassNames

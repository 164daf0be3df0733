import Mathlib.Algebra.Group.Nat.Defs
import Mathlib.Data.List.Basic
import Mathlib.Tactic.SplitIfs

/-!
# The version column (`portlist.cc`)

`populateFullVersionString` puts product, version and extra information of a service into a
buffer of a fixed size, and shortens what does not fit. `closed_iff`: the text never gets too
long, but where the whole text fits exactly, no room is left for the closing parenthesis.
-/

namespace Nmap.Ports

open List

/-! ## Filling the buffer -/

/-- The text in the buffer, with the room that is left, and whether a space is needed before the
next part -/
structure VersionBuffer where
  dst : List Char
  spaceleft : UInt32
  needpad : Bool

namespace VersionBuffer

/-- `dst[0] = '\0'`; `unsigned int spaceleft = n - 1` -/
def empty (n : Nat) : VersionBuffer := ⟨[], UInt32.ofNat (n - 1), false⟩

def strncat (s : VersionBuffer) (text : List Char) (n : UInt32) : VersionBuffer :=
  { s with dst := s.dst ++ text.take n.toNat }

def pad (s : VersionBuffer) : VersionBuffer :=
  if s.needpad then { s.strncat [' '] s.spaceleft with spaceleft := s.spaceleft - 1 } else s

/-- A part that is cut where it is too long -/
def fill (s : VersionBuffer) (text : List Char) : VersionBuffer :=
  if s.spaceleft.toNat < text.length then
    -- "Leave room for "...""
    { (s.strncat text (s.spaceleft - 3)).strncat ['.', '.', '.'] s.spaceleft with
      spaceleft := 0
      needpad := true }
  else
    { s.strncat text s.spaceleft with
      spaceleft := s.spaceleft - UInt32.ofNat text.length
      needpad := true }

def putProduct (product : Option (List Char)) (s : VersionBuffer) : VersionBuffer :=
  match product with
  | some text => if 8 ≤ s.spaceleft then s.fill text else s
  | none => s

def putVersion (version : Option (List Char)) (s : VersionBuffer) : VersionBuffer :=
  match version with
  | some text => if 8 ≤ s.spaceleft then s.pad.fill text else s
  | none => s

/-- The extra information, in parentheses -/
def parenthesize (s : VersionBuffer) (text : List Char) : VersionBuffer :=
  let s := s.strncat ['('] s.spaceleft
  let s := if (s.spaceleft - 2).toNat < text.length then
      -- "Fit the paren"
      { (s.strncat text (s.spaceleft - 5)).strncat ['.', '.', '.'] (s.spaceleft - 2) with
        spaceleft := 1 }
    else
      { s.strncat text s.spaceleft with
        spaceleft := s.spaceleft - (UInt32.ofNat text.length + 2) }
  { s.strncat [')'] s.spaceleft with spaceleft := s.spaceleft - 1 }

def putExtrainfo (extrainfo : Option (List Char)) (s : VersionBuffer) : VersionBuffer :=
  match extrainfo with
  | some text => if 8 ≤ s.spaceleft then s.pad.parenthesize text else s
  | none => s

end VersionBuffer

/-- The fields of `serviceDeductions` that are put together -/
structure VersionParts where
  product : Option (List Char)
  version : Option (List Char)
  extrainfo : Option (List Char)

namespace VersionParts

open VersionBuffer

variable (sd : VersionParts) (n : Nat)

/-- The buffer before the extra information -/
def beforeExtrainfo : VersionBuffer := ((empty n).putProduct sd.product).putVersion sd.version

def populateFullVersionString : List Char :=
  ((sd.beforeExtrainfo n).putExtrainfo sd.extrainfo).dst

/-- The extra information is emitted: there is some, and room for at least a part of it. -/
def EmitsExtrainfo : Prop :=
  sd.extrainfo.isSome = true ∧ 8 ≤ (sd.beforeExtrainfo n).spaceleft

instance : Decidable (sd.EmitsExtrainfo n) := inferInstanceAs (Decidable (_ ∧ _))

/-- The extra information in this much room, or its start with an ellipsis -/
def cutExtrainfo (room : Nat) (text : List Char) : List Char :=
  if room < text.length then text.take (room - 3) ++ ['.', '.', '.'] else text

/-- The text ends with the extra information in parentheses. -/
def Closed : Prop :=
  ∃ text, sd.extrainfo = some text ∧ sd.populateFullVersionString n =
    (sd.beforeExtrainfo n).pad.dst ++ ['('] ++
      cutExtrainfo ((sd.beforeExtrainfo n).pad.spaceleft.toNat - 2) text ++ [')']

/-- The product and the version, as they are -/
def heading : List Char :=
  match sd.product, sd.version with
  | some product, some version => product ++ [' '] ++ version
  | some product, none => product
  | none, some version => version
  | none, none => []

/-- A space is needed after the product or the version. -/
def headed : Bool := sd.product.isSome || sd.version.isSome

/-- The whole text fits exactly, and its extra information is not too short to be emitted. -/
def FitsExactly : Prop :=
  ∃ text, sd.extrainfo = some text ∧ 8 ≤ sd.headed.toNat + text.length + 2 ∧
    sd.heading.length + sd.headed.toNat + text.length + 2 = (n - 1) % 2 ^ 32

end VersionParts

/-! ## One part -/

namespace VersionBuffer

variable {s : VersionBuffer} {text : List Char}

theorem toNat_sub {a b : UInt32} (le : b.toNat ≤ a.toNat) : (a - b).toNat = a.toNat - b.toNat :=
  UInt32.toNat_sub_of_le a b (UInt32.le_iff_toNat_le.mpr le)

theorem eight_le {a : UInt32} : 8 ≤ a ↔ 8 ≤ a.toNat := UInt32.le_iff_toNat_le

theorem pad_eq (room : 1 ≤ s.spaceleft.toNat) :
    s.pad.dst = s.dst ++ (if s.needpad then [' '] else []) ∧
      s.pad.spaceleft.toNat = s.spaceleft.toNat - s.needpad.toNat := by
  rw [pad]
  cases s.needpad with
  | false => exact ⟨(append_nil _).symm, rfl⟩
  | true =>
    refine ⟨?_, toNat_sub room⟩
    show s.dst ++ [' '].take s.spaceleft.toNat = s.dst ++ [' ']
    rw [take_of_length_le room]

theorem fill_short (fits : text.length ≤ s.spaceleft.toNat) :
    (s.fill text).dst = s.dst ++ text ∧ (s.fill text).needpad = true ∧
      (s.fill text).spaceleft.toNat = s.spaceleft.toNat - text.length := by
  have same : (UInt32.ofNat text.length).toNat = text.length :=
    UInt32.toNat_ofNat_of_lt' (Nat.lt_of_le_of_lt fits s.spaceleft.toNat_lt)
  rw [fill, if_neg (Nat.not_lt.mpr fits)]
  refine ⟨?_, rfl, ?_⟩
  · show s.dst ++ text.take s.spaceleft.toNat = _
    rw [take_of_length_le fits]
  · show (s.spaceleft - UInt32.ofNat text.length).toNat = _
    rw [toNat_sub (by omega), same]

theorem fill_long (long : s.spaceleft.toNat < text.length) (room : 3 ≤ s.spaceleft.toNat) :
    (s.fill text).dst.length = s.dst.length + s.spaceleft.toNat ∧
      (s.fill text).spaceleft.toNat = 0 := by
  have three : (s.spaceleft - 3).toNat = s.spaceleft.toNat - 3 := toNat_sub room
  rw [fill, if_pos long]
  refine ⟨?_, rfl⟩
  show (s.dst ++ text.take (s.spaceleft - 3).toNat ++
    ['.', '.', '.'].take s.spaceleft.toNat).length = _
  rw [take_of_length_le (l := ['.', '.', '.']) room, length_append, length_append,
    length_take, three]
  show s.dst.length + min (s.spaceleft.toNat - 3) text.length + 3 = _
  omega

/-- The room is what the text does not take of `total`. -/
def Accounts (total : Nat) (s : VersionBuffer) : Prop :=
  s.dst.length + s.spaceleft.toNat = total

variable {total : Nat}

theorem Accounts.pad (accounts : Accounts total s) (room : 1 ≤ s.spaceleft.toNat) :
    Accounts total s.pad := by
  obtain ⟨text, left⟩ := pad_eq room
  unfold Accounts at accounts ⊢
  rw [text, left, length_append]
  cases s.needpad with
  | false => simpa using accounts
  | true =>
    show s.dst.length + 1 + (s.spaceleft.toNat - 1) = total
    omega

theorem Accounts.fill (accounts : Accounts total s) (text : List Char)
    (room : 3 ≤ s.spaceleft.toNat) : Accounts total (s.fill text) := by
  unfold Accounts at accounts ⊢
  rcases Nat.lt_or_ge s.spaceleft.toNat text.length with long | short
  · obtain ⟨length, left⟩ := fill_long long room
    omega
  · obtain ⟨dst, -, left⟩ := fill_short short
    rw [dst, left, length_append]
    omega

theorem Accounts.putProduct (accounts : Accounts total s) (product : Option (List Char)) :
    Accounts total (s.putProduct product) := by
  cases product with
  | none => exact accounts
  | some text =>
    rw [VersionBuffer.putProduct]
    split_ifs with room
    · exact accounts.fill text (by have := eight_le.mp room; omega)
    · exact accounts

theorem Accounts.putVersion (accounts : Accounts total s) (version : Option (List Char)) :
    Accounts total (s.putVersion version) := by
  cases version with
  | none => exact accounts
  | some text =>
    rw [VersionBuffer.putVersion]
    split_ifs with room
    · have room := eight_le.mp room
      have left := (pad_eq (s := s) (by omega)).2
      have one := Bool.toNat_le s.needpad
      exact (accounts.pad (by omega)).fill text (by omega)
    · exact accounts

/-- `s'` is `s` with so many characters more, unless there is little room. -/
structure Leaves (s : VersionBuffer) (taken : Nat) (s' : VersionBuffer) : Prop where
  room_iff : 8 ≤ s'.spaceleft.toNat ↔ taken + 8 ≤ s.spaceleft.toNat
  left : taken + 8 ≤ s.spaceleft.toNat →
    s'.spaceleft.toNat = s.spaceleft.toNat - taken ∧ s'.needpad = true

theorem Leaves.fill (text : List Char) (room : 3 ≤ s.spaceleft.toNat) :
    Leaves s text.length (s.fill text) := by
  rcases Nat.lt_or_ge s.spaceleft.toNat text.length with long | short
  · obtain ⟨-, left⟩ := fill_long long room
    exact ⟨by omega, by omega⟩
  · obtain ⟨-, needpad, left⟩ := fill_short short
    exact ⟨by omega, fun _ => ⟨left, needpad⟩⟩

theorem Leaves.putProduct (text : List Char) :
    Leaves s text.length (s.putProduct (some text)) := by
  rw [VersionBuffer.putProduct]
  split_ifs with room
  · exact Leaves.fill text (by have := eight_le.mp room; omega)
  · rw [eight_le] at room
    exact ⟨by omega, by omega⟩

theorem Leaves.putVersion (text : List Char) :
    Leaves s (s.needpad.toNat + text.length) (s.putVersion (some text)) := by
  rw [VersionBuffer.putVersion]
  split_ifs with room
  · have room := eight_le.mp room
    have one := Bool.toNat_le s.needpad
    have padded := (pad_eq (s := s) (by omega)).2
    obtain ⟨room_iff, left⟩ := Leaves.fill (s := s.pad) text (by omega)
    refine ⟨by omega, ?_⟩
    intro enough
    obtain ⟨left, needpad⟩ := left (by omega)
    exact ⟨by omega, needpad⟩
  · rw [eight_le] at room
    exact ⟨by omega, by omega⟩

/-- The parenthesis is closed where there is room for it after what is in it. -/
theorem parenthesize_dst (text : List Char) (room : 5 ≤ s.spaceleft.toNat) :
    (s.parenthesize text).dst = s.dst ++ ['('] ++
      VersionParts.cutExtrainfo (s.spaceleft.toNat - 2) text ++
        if s.spaceleft.toNat = text.length + 2 then [] else [')'] := by
  have two : (s.spaceleft - 2).toNat = s.spaceleft.toNat - 2 :=
    toNat_sub (show 2 ≤ s.spaceleft.toNat by omega)
  have five : (s.spaceleft - 5).toNat = s.spaceleft.toNat - 5 := toNat_sub room
  have opened : ['('].take s.spaceleft.toNat = ['('] := take_of_length_le (by simp; omega)
  simp only [parenthesize, strncat, two, opened]
  rw [VersionParts.cutExtrainfo]
  split_ifs with long full full
  · omega
  · show s.dst ++ ['('] ++ text.take (s.spaceleft - 5).toNat ++
      ['.', '.', '.'].take (s.spaceleft.toNat - 2) ++ [')'] = _
    rw [five, take_of_length_le (l := ['.', '.', '.']) (by simp; omega),
      append_assoc (s.dst ++ ['('])]
    rfl
  all_goals
    have whole : text.take s.spaceleft.toNat = text := take_of_length_le (by omega)
    have size : (UInt32.ofNat text.length + 2).toNat = text.length + 2 := by
      have small := s.spaceleft.toNat_lt
      rw [UInt32.toNat_add, UInt32.toNat_ofNat_of_lt' (show text.length < 2 ^ 32 by omega)]
      exact Nat.mod_eq_of_lt (show text.length + 2 < 2 ^ 32 by omega)
    have left : (s.spaceleft - (UInt32.ofNat text.length + 2)).toNat =
        s.spaceleft.toNat - (text.length + 2) := by
      rw [toNat_sub (by omega), size]
    rw [whole, left]
  · rw [full, Nat.sub_self, take_zero]
  · rw [take_of_length_le (by simp; omega)]

end VersionBuffer

namespace VersionParts

open VersionBuffer

variable (sd : VersionParts) (n : Nat)

theorem empty_spaceleft : (empty n).spaceleft.toNat = (n - 1) % 2 ^ 32 := UInt32.toNat_ofNat'

theorem beforeExtrainfo_accounts : Accounts ((n - 1) % 2 ^ 32) (sd.beforeExtrainfo n) := by
  have start : Accounts ((n - 1) % 2 ^ 32) (empty n) := by
    unfold Accounts
    rw [empty_spaceleft]
    exact Nat.zero_add _
  exact (start.putProduct sd.product).putVersion sd.version

/-- Extra information is emitted behind a whole product and version only. -/
theorem beforeExtrainfo_room :
    (8 ≤ (sd.beforeExtrainfo n).spaceleft.toNat ↔
        sd.heading.length + 8 ≤ (n - 1) % 2 ^ 32) ∧
      (sd.heading.length + 8 ≤ (n - 1) % 2 ^ 32 →
        (sd.beforeExtrainfo n).spaceleft.toNat = (n - 1) % 2 ^ 32 - sd.heading.length ∧
          (sd.beforeExtrainfo n).needpad = sd.headed) := by
  obtain ⟨product, version, extrainfo⟩ := sd
  rw [← empty_spaceleft]
  simp only [beforeExtrainfo, heading, headed]
  cases product with
  | none =>
    cases version with
    | none => exact ⟨Iff.rfl, fun _ => ⟨rfl, rfl⟩⟩
    | some version =>
      obtain ⟨room_iff, left⟩ := Leaves.putVersion (s := empty n) version
      rw [show (empty n).needpad.toNat = 0 from rfl, Nat.zero_add] at room_iff left
      exact ⟨room_iff, left⟩
  | some product =>
    obtain ⟨room_iff, left⟩ := Leaves.putProduct (s := empty n) product
    cases version with
    | none => exact ⟨room_iff, left⟩
    | some version =>
      obtain ⟨room_iff', left'⟩ :=
        Leaves.putVersion (s := (empty n).putProduct (some product)) version
      simp only [length_append, length_singleton]
      by_cases enough : product.length + 8 ≤ (empty n).spaceleft.toNat
      · obtain ⟨room, needpad⟩ := left enough
        rw [needpad, Bool.toNat_true, room] at room_iff' left'
        refine ⟨by omega, ?_⟩
        intro more
        obtain ⟨room', needpad'⟩ := left' (by omega)
        exact ⟨by omega, needpad'⟩
      · exact ⟨by omega, by omega⟩

theorem fitsExactly_iff : sd.FitsExactly n ↔
    ∃ text, sd.extrainfo = some text ∧ 8 ≤ (sd.beforeExtrainfo n).spaceleft.toNat ∧
      (sd.beforeExtrainfo n).pad.spaceleft.toNat = text.length + 2 := by
  obtain ⟨room_iff, left⟩ := sd.beforeExtrainfo_room n
  apply exists_congr
  intro text
  apply and_congr_right
  intro _
  have one := Bool.toNat_le sd.headed
  constructor
  · rintro ⟨shown, exact_⟩
    obtain ⟨room, needpad⟩ := left (by omega)
    refine ⟨by omega, ?_⟩
    rw [(pad_eq (by omega)).2, room, needpad]
    omega
  · rintro ⟨shown, exact_⟩
    obtain ⟨room, needpad⟩ := left (room_iff.mp shown)
    rw [(pad_eq (by omega)).2, room, needpad] at exact_
    have fits := room_iff.mp shown
    exact ⟨by omega, by omega⟩

/-- The text stays within the buffer. -/
theorem populateFullVersionString_length :
    (sd.populateFullVersionString n).length ≤ (n - 1) % 2 ^ 32 := by
  have accounts := sd.beforeExtrainfo_accounts n
  unfold Accounts at accounts
  rw [populateFullVersionString]
  cases sd.extrainfo with
  | none =>
    show (sd.beforeExtrainfo n).dst.length ≤ _
    omega
  | some text =>
    rw [putExtrainfo]
    split_ifs with room
    · have room := eight_le.mp room
      have padded := (sd.beforeExtrainfo_accounts n).pad (by omega)
      have left := (pad_eq (s := sd.beforeExtrainfo n) (by omega)).2
      have one := Bool.toNat_le (sd.beforeExtrainfo n).needpad
      unfold Accounts at padded
      rw [parenthesize_dst text (by omega), cutExtrainfo]
      split_ifs with long full full
      · omega
      · simp only [length_append, length_take, length_cons, length_nil]
        omega
      · simp only [length_append, length_cons, length_nil]
        omega
      · simp only [length_append, length_cons, length_nil]
        omega
    · omega

/-- The text never outgrows the buffer, and extra information ends with its closing parenthesis,
exactly if the whole text does not just fill the buffer. -/
theorem closed_iff (sd : VersionParts) (n : Nat) :
    ((sd.populateFullVersionString n).length ≤ n - 1 ∧
        (sd.EmitsExtrainfo n → sd.Closed n)) ↔
      ¬ sd.FitsExactly n := by
  have inside : (sd.populateFullVersionString n).length ≤ n - 1 :=
    Nat.le_trans (sd.populateFullVersionString_length n) (Nat.mod_le _ _)
  rw [and_iff_right inside, fitsExactly_iff]
  have emitted : ∀ text, sd.extrainfo = some text →
      8 ≤ (sd.beforeExtrainfo n).spaceleft.toNat → sd.populateFullVersionString n =
        (sd.beforeExtrainfo n).pad.dst ++ ['('] ++
          cutExtrainfo ((sd.beforeExtrainfo n).pad.spaceleft.toNat - 2) text ++
          if (sd.beforeExtrainfo n).pad.spaceleft.toNat = text.length + 2 then [] else [')'] := by
    intro text extra room
    have left := (pad_eq (s := sd.beforeExtrainfo n) (by omega)).2
    have one := Bool.toNat_le (sd.beforeExtrainfo n).needpad
    rw [populateFullVersionString, extra, putExtrainfo, if_pos (eight_le.mpr room),
      parenthesize_dst text (by omega)]
  constructor
  · rintro closed ⟨text, extra, room, full⟩
    obtain ⟨text', extra', same⟩ := closed ⟨by rw [extra]; rfl, eight_le.mpr room⟩
    rw [extra] at extra'
    cases extra'
    rw [emitted text extra room, if_pos full] at same
    have lengths := congrArg List.length same
    simp at lengths
  · rintro roomy ⟨some, room⟩
    obtain ⟨text, extra⟩ := Option.isSome_iff_exists.mp some
    refine ⟨text, extra, ?_⟩
    rw [emitted text extra (eight_le.mp room), if_neg]
    exact fun full => roomy ⟨text, extra, eight_le.mp room, full⟩

/-- A service with 151 characters of extra information. With its product it makes 159. -/
def nginx : VersionParts := ⟨some ['n', 'g', 'i', 'n', 'x'], none, some (List.replicate 151 'x')⟩

/-- In the buffer of the report, which holds 159, it is left without its parenthesis. -/
theorem nginx_unclosed :
    ¬ ((nginx.populateFullVersionString 160).length ≤ 160 - 1 ∧
        (nginx.EmitsExtrainfo 160 → nginx.Closed 160)) := by
  rintro ⟨-, closed⟩
  obtain ⟨text, extra, same⟩ := closed (by decide)
  cases extra
  have lengths := congrArg List.length same
  exact absurd lengths (by decide +kernel)

end VersionParts

end Nmap.Ports

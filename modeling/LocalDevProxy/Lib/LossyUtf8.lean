import LocalDevProxy.Lib.Utf8
import Mathlib.Tactic.Ring

namespace LocalDevProxy.Lib.LossyUtf8

open Utf8

/-- A character of which some bytes were read: their value, how many are to come
after the next one, and the range of the next one. -/
structure Begun where
  value : Nat
  owed : Nat
  low : UInt8
  high : UInt8
  notAscii : 128 ≤ low

def replacement : Char := '\uFFFD'

inductive First
  | whole (c : Char)
  | begun (p : Begun)
  | invalid

def first (b : UInt8) : First :=
  if b < 0x80 then .whole (Char.ofNat b.toNat)
  else if 0xC2 ≤ b ∧ b ≤ 0xDF then .begun ⟨b.toNat % 32, 0, 0x80, 0xBF, by decide⟩
  else if b = 0xE0 then .begun ⟨b.toNat % 16, 1, 0xA0, 0xBF, by decide⟩
  else if b = 0xED then .begun ⟨b.toNat % 16, 1, 0x80, 0x9F, by decide⟩
  else if 0xE1 ≤ b ∧ b ≤ 0xEF then .begun ⟨b.toNat % 16, 1, 0x80, 0xBF, by decide⟩
  else if b = 0xF0 then .begun ⟨b.toNat % 8, 2, 0x90, 0xBF, by decide⟩
  else if b = 0xF4 then .begun ⟨b.toNat % 8, 2, 0x80, 0x8F, by decide⟩
  else if 0xF1 ≤ b ∧ b ≤ 0xF3 then .begun ⟨b.toNat % 8, 2, 0x80, 0xBF, by decide⟩
  else .invalid

def start (b : UInt8) : List Char × Option Begun :=
  match first b with
  | .whole c => ([c], none)
  | .begun p => ([], some p)
  | .invalid => ([replacement], none)

/-- A byte goes on with the character begun, or ends it as one that is replaced. -/
def step (pending : Option Begun) (b : UInt8) : List Char × Option Begun :=
  match pending with
  | none => start b
  | some p =>
      if p.low ≤ b ∧ b ≤ p.high then
        let value := p.value * 64 + b.toNat % 64
        match p.owed with
        | 0 => ([Char.ofNat value], none)
        | owed + 1 => ([], some ⟨value, owed, 0x80, 0xBF, by decide⟩)
      else (replacement :: (start b).1, (start b).2)

/-- The characters of some bytes, each longest part of a broken one replaced. -/
def decodeFrom : Option Begun → List UInt8 → List Char
  | none, [] => []
  | some _, [] => [replacement]
  | pending, b :: rest => (step pending b).1 ++ decodeFrom (step pending b).2 rest

def decode (bytes : List UInt8) : List Char := decodeFrom none bytes

theorem start_ascii {b : UInt8} (h : b < 128) : start b = ([Char.ofNat b.toNat], none) := by
  rw [start, first, if_pos h]

theorem step_ascii {b : UInt8} (h : b < 128) (pending : Option Begun) :
    step pending b = (decodeFrom pending [] ++ [Char.ofNat b.toNat], none) := by
  cases pending with
  | none => exact start_ascii h
  | some p =>
      have hlow := p.notAscii
      have hout : ¬ (p.low ≤ b ∧ b ≤ p.high) := by
        intro hin
        exact absurd (UInt8.lt_of_le_of_lt (UInt8.le_trans hlow hin.1) h) (UInt8.lt_irrefl _)
      rw [step, if_neg hout, start_ascii h]
      rfl

/-- Decoding falls apart at every ASCII byte. -/
theorem decodeFrom_ascii {b : UInt8} (h : b < 128) (pending : Option Begun) (xs ys : List UInt8) :
    decodeFrom pending (xs ++ b :: ys) = decodeFrom pending xs ++ Char.ofNat b.toNat :: decode ys := by
  induction xs generalizing pending with
  | nil =>
      rw [List.nil_append, decodeFrom, step_ascii h, List.append_assoc]
      rfl
  | cons x xs ih =>
      rw [List.cons_append, decodeFrom, decodeFrom, ih, List.append_assoc]

theorem decode_ascii {b : UInt8} (h : b < 128) (xs ys : List UInt8) :
    decode (xs ++ b :: ys) = decode xs ++ Char.ofNat b.toNat :: decode ys :=
  decodeFrom_ascii h none xs ys

/-- ASCII bytes at the beginning are characters at the beginning. -/
theorem decode_append_ascii {pattern : List UInt8} (h : ∀ b ∈ pattern, b < 128) (ys : List UInt8) :
    decode (pattern ++ ys) = pattern.map (fun b => Char.ofNat b.toNat) ++ decode ys := by
  induction pattern with
  | nil => rfl
  | cons b pattern ih =>
      rw [List.forall_mem_cons] at h
      have hsplit := decode_ascii h.1 [] (pattern ++ ys)
      rw [List.cons_append, ← List.nil_append (b :: (pattern ++ ys)), hsplit, ih h.2]
      rfl

theorem step_keeps_owing {pending : Option Begun} {b : UInt8} (h : (step pending b).1 = []) :
    (step pending b).2 ≠ none := by
  cases pending with
  | none =>
      rw [step, start] at h ⊢
      cases hfirst : first b with
      | begun p => exact Option.some_ne_none p
      | whole c | invalid =>
          rw [hfirst] at h
          cases h
  | some p =>
      rw [step] at h ⊢
      split at h
      · rename_i hin
        rw [if_pos hin]
        cases howed : p.owed with
        | zero =>
            simp only [howed] at h
            cases h
        | succ owed => exact Option.some_ne_none _
      · cases h

/-- Every byte leaves a trace. -/
theorem decodeFrom_eq_nil {pending : Option Begun} {bytes : List UInt8} (h : decodeFrom pending bytes = []) :
    pending = none ∧ bytes = [] := by
  induction bytes generalizing pending with
  | nil =>
      cases pending with
      | none => exact ⟨rfl, rfl⟩
      | some p => cases h
  | cons b bytes ih =>
      rw [decodeFrom, List.append_eq_nil_iff] at h
      exact absurd (ih h.2).1 (step_keeps_owing h.1)

theorem decode_eq_nil {bytes : List UInt8} : decode bytes = [] ↔ bytes = [] :=
  ⟨fun h => (decodeFrom_eq_nil h).2, fun h => by rw [h]; rfl⟩

/-- The values that a character begun can still have are those of characters outside ASCII. -/
structure Proper (p : Begun) : Prop where
  high : p.high.toNat ≤ 0xBF
  wide : 128 ≤ (p.value * 64 + p.low.toNat % 64) * 64 ^ p.owed
  valid : (p.value * 64 + p.high.toNat % 64 + 1) * 64 ^ p.owed ≤ 0xD800 ∨
    0xE000 ≤ (p.value * 64 + p.low.toNat % 64) * 64 ^ p.owed ∧
      (p.value * 64 + p.high.toNat % 64 + 1) * 64 ^ p.owed ≤ 0x110000

theorem toNat_ofNat {n : Nat} (h : n < 0xD800 ∨ 0xE000 ≤ n ∧ n < 0x110000) : (Char.ofNat n).toNat = n := by
  have hvalid : n.isValidChar := h.imp id fun h => ⟨by omega, h.2⟩
  rw [Char.ofNat, dif_pos hvalid]
  rfl

theorem first_proper {b : UInt8} {p : Begun} (h : first b = .begun p) : Proper p := by
  rw [first] at h
  simp only [UInt8.lt_iff_toNat_lt, UInt8.le_iff_toNat_le, ← UInt8.toNat_inj, UInt8.reduceToNat] at h
  have hbyte := b.toNat_lt
  split_ifs at h
  all_goals
    obtain rfl := First.begun.inj h
    constructor <;> simp only [UInt8.reduceToNat] <;> omega

theorem start_proper {b : UInt8} {p : Begun} (h : (start b).2 = some p) : Proper p := by
  rw [start] at h
  cases hfirst : first b with
  | begun q =>
      rw [hfirst] at h
      obtain rfl := Option.some.inj h
      exact first_proper hfirst
  | whole c | invalid =>
      rw [hfirst] at h
      cases h

theorem start_wide {b : UInt8} (hb : 128 ≤ b) : ∀ c ∈ (start b).1, 128 ≤ c.toNat := by
  intro c hc
  rw [start] at hc
  cases hfirst : first b with
  | begun p =>
      rw [hfirst] at hc
      cases hc
  | invalid =>
      rw [hfirst] at hc
      rw [List.mem_singleton.mp hc]
      decide
  | whole d =>
      rw [first, if_neg (UInt8.not_lt.mpr hb)] at hfirst
      split_ifs at hfirst

/-- A byte in the range goes on with the value. -/
theorem Proper.bounds {p : Begun} (h : Proper p) {b : UInt8} (hlow : p.low ≤ b) (hhigh : b ≤ p.high) :
    p.low.toNat % 64 ≤ b.toNat % 64 ∧ b.toNat % 64 ≤ p.high.toNat % 64 := by
  have hnotAscii := p.notAscii
  have htop := h.high
  rw [UInt8.le_iff_toNat_le] at hlow hhigh hnotAscii
  simp only [UInt8.reduceToNat] at hnotAscii
  omega

theorem step_wide {pending : Option Begun} {b : UInt8} (hp : ∀ p ∈ pending, Proper p) (hb : 128 ≤ b) :
    (∀ c ∈ (step pending b).1, 128 ≤ c.toNat) ∧ ∀ p ∈ (step pending b).2, Proper p := by
  cases pending with
  | none => exact ⟨start_wide hb, fun p => start_proper⟩
  | some p =>
      have hproper := hp p rfl
      rw [step]
      split
      · rename_i hin
        obtain ⟨hlow, hhigh⟩ := hproper.bounds hin.1 hin.2
        have hwide := hproper.wide
        have hvalid := hproper.valid
        cases howed : p.owed with
        | zero =>
            simp only [howed, pow_zero, mul_one] at hwide hvalid
            refine ⟨fun c hc => ?_, nofun⟩
            rw [List.mem_singleton.mp hc, toNat_ofNat (by omega)]
            omega
        | succ owed =>
            simp only [howed, pow_succ] at hwide hvalid
            refine ⟨nofun, fun q hq => ?_⟩
            obtain rfl := Option.some.inj hq
            have hleast : (p.value * 64 + p.low.toNat % 64) * (64 ^ owed * 64) ≤
                (p.value * 64 + b.toNat % 64) * (64 ^ owed * 64) := Nat.mul_le_mul_right _ (by omega)
            have hmost : (p.value * 64 + b.toNat % 64 + 1) * (64 ^ owed * 64) ≤
                (p.value * 64 + p.high.toNat % 64 + 1) * (64 ^ owed * 64) := Nat.mul_le_mul_right _ (by omega)
            have hlowest : ((p.value * 64 + b.toNat % 64) * 64 + 0) * 64 ^ owed =
                (p.value * 64 + b.toNat % 64) * (64 ^ owed * 64) := by ring
            have hhighest : ((p.value * 64 + b.toNat % 64) * 64 + 63 + 1) * 64 ^ owed =
                (p.value * 64 + b.toNat % 64 + 1) * (64 ^ owed * 64) := by ring
            constructor
            · exact Nat.le_refl _
            · simp only [UInt8.reduceToNat, Nat.reduceMod]
              omega
            · simp only [UInt8.reduceToNat, Nat.reduceMod]
              omega
      · refine ⟨fun c hc => ?_, fun q => start_proper⟩
        rcases List.mem_cons.mp hc with rfl | hc
        · decide
        · exact start_wide hb c hc

/-- Bytes outside ASCII become characters outside ASCII. -/
theorem decodeFrom_wide {pending : Option Begun} {bytes : List UInt8} (hp : ∀ p ∈ pending, Proper p)
    (hbytes : ∀ b ∈ bytes, 128 ≤ b) : ∀ c ∈ decodeFrom pending bytes, 128 ≤ c.toNat := by
  induction bytes generalizing pending with
  | nil =>
      cases pending with
      | none => exact nofun
      | some p =>
          intro c hc
          rw [List.mem_singleton.mp hc]
          decide
  | cons b bytes ih =>
      rw [List.forall_mem_cons] at hbytes
      obtain ⟨hchars, hnext⟩ := step_wide hp hbytes.1
      intro c hc
      rw [decodeFrom] at hc
      rcases List.mem_append.mp hc with hc | hc
      · exact hchars c hc
      · exact ih hnext hbytes.2 c hc

theorem decode_wide {bytes : List UInt8} (h : ∀ b ∈ bytes, 128 ≤ b) : ∀ c ∈ decode bytes, 128 ≤ c.toNat :=
  decodeFrom_wide (fun p hp => by cases hp) h

/-- Bytes are taken apart at the ASCII bytes among them. -/
theorem ascii_induction {motive : List UInt8 → Prop} (wide : ∀ xs, (∀ x ∈ xs, 128 ≤ x) → motive xs)
    (ascii : ∀ xs b ys, (∀ x ∈ xs, 128 ≤ x) → b < 128 → motive ys → motive (xs ++ b :: ys)) (bytes : List UInt8) :
    motive bytes := by
  have hfrom : ∀ xs, (∀ x ∈ xs, 128 ≤ x) → motive (xs ++ bytes) := by
    induction bytes with
    | nil =>
        intro xs hxs
        rw [List.append_nil]
        exact wide xs hxs
    | cons b bytes ih =>
        intro xs hxs
        by_cases hb : b < 128
        · exact ascii xs b bytes hxs hb (ih [] nofun)
        · have hmore := ih (xs ++ [b]) fun x hx => by
            rcases List.mem_append.mp hx with hx | hx
            · exact hxs x hx
            · exact List.mem_singleton.mp hx ▸ UInt8.not_lt.mp hb
          rwa [List.append_assoc] at hmore
  exact hfrom [] nofun

theorem ascii_toNat {b : UInt8} (hb : b < 128) : (Char.ofNat b.toNat).toNat = b.toNat := by
  rw [UInt8.lt_iff_toNat_lt] at hb
  simp only [UInt8.reduceToNat] at hb
  exact toNat_ofNat (by omega)

theorem ofNat_inj {a b : UInt8} (ha : a < 128) (hb : b < 128) (h : Char.ofNat a.toNat = Char.ofNat b.toNat) :
    a = b := by
  have hsame := congrArg Char.toNat h
  rw [ascii_toNat ha, ascii_toNat hb] at hsame
  exact UInt8.toNat_inj.mp hsame

/-- A text that begins with bytes outside ASCII begins with a character outside ASCII. -/
theorem decode_head {b : UInt8} (hb : 128 ≤ b) (bytes : List UInt8) :
    ∃ c text, decode (b :: bytes) = c :: text ∧ 128 ≤ c.toNat := by
  have hfirst : ∀ xs : List UInt8, xs ≠ [] → (∀ x ∈ xs, 128 ≤ x) → ∀ text, ∃ c rest,
      decode xs ++ text = c :: rest ∧ 128 ≤ c.toNat := by
    intro xs hne hxs text
    obtain ⟨c, rest, hchars⟩ := List.exists_cons_of_ne_nil (mt decode_eq_nil.mp hne)
    refine ⟨c, rest ++ text, by rw [hchars]; rfl, decode_wide hxs c ?_⟩
    rw [hchars]
    exact List.mem_cons_self
  refine ascii_induction (motive := fun whole => ∀ bytes, whole = b :: bytes →
    ∃ c text, decode whole = c :: text ∧ 128 ≤ c.toNat) ?_ ?_ (b :: bytes) bytes rfl
  · rintro xs hxs bytes rfl
    simpa using hfirst (b :: bytes) (List.cons_ne_nil _ _) hxs []
  · intro xs d ys hxs hd _ bytes hwhole
    rw [decode_ascii hd]
    refine hfirst xs ?_ hxs _
    rintro rfl
    obtain ⟨rfl, _⟩ := List.cons.inj hwhole
    exact absurd hd (UInt8.not_lt.mpr hb)

/-- ASCII characters stand where their bytes do. -/
theorem prefix_decode {pattern : List UInt8} (h : ∀ b ∈ pattern, b < 128) (bytes : List UInt8) :
    pattern.map (fun b => Char.ofNat b.toNat) <+: decode bytes ↔ pattern <+: bytes := by
  induction pattern generalizing bytes with
  | nil => exact iff_of_true List.nil_prefix List.nil_prefix
  | cons a pattern ih =>
      rw [List.forall_mem_cons] at h
      cases bytes with
      | nil =>
          refine iff_of_false (mt List.prefix_nil.mp ?_) (mt List.prefix_nil.mp (List.cons_ne_nil _ _))
          exact List.cons_ne_nil _ _
      | cons b bytes =>
          rw [List.map_cons, List.cons_prefix_cons]
          by_cases hb : b < 128
          · have hsplit : decode (b :: bytes) = Char.ofNat b.toNat :: decode bytes := decode_ascii hb [] bytes
            rw [hsplit, List.cons_prefix_cons, ih h.2]
            exact and_congr_left fun _ => ⟨ofNat_inj h.1 hb, fun he => he ▸ rfl⟩
          · obtain ⟨c, text, hchars, hwide⟩ := decode_head (UInt8.not_lt.mp hb) bytes
            rw [hchars, List.cons_prefix_cons]
            refine iff_of_false (fun hp => ?_) (fun hp => hb (hp.1 ▸ h.1))
            have hlow := h.1
            rw [UInt8.lt_iff_toNat_lt, ← ascii_toNat h.1, hp.1] at hlow
            simp only [UInt8.reduceToNat] at hlow
            omega

theorem decode_begun {a : UInt8} {p : Begun} (h : first a = .begun p) (rest : List UInt8) :
    decode (a :: rest) = decodeFrom (some p) rest := by
  rw [decode, decodeFrom, step, start, h]
  rfl

theorem decodeFrom_last {p : Begun} {b : UInt8} (howed : p.owed = 0) (hlow : p.low ≤ b) (hhigh : b ≤ p.high)
    (rest : List UInt8) :
    decodeFrom (some p) (b :: rest) = Char.ofNat (p.value * 64 + b.toNat % 64) :: decode rest := by
  simp only [decodeFrom, step, if_pos (And.intro hlow hhigh), howed]
  rfl

theorem decodeFrom_next {p : Begun} {b : UInt8} {owed : Nat} (howed : p.owed = owed + 1) (hlow : p.low ≤ b)
    (hhigh : b ≤ p.high) (rest : List UInt8) :
    ∃ q : Begun, q.value = p.value * 64 + b.toNat % 64 ∧ q.owed = owed ∧ q.low = 0x80 ∧ q.high = 0xBF ∧
      decodeFrom (some p) (b :: rest) = decodeFrom (some q) rest := by
  simp only [decodeFrom, step, if_pos (And.intro hlow hhigh), howed]
  exact ⟨_, rfl, rfl, rfl, rfl, rfl⟩

/-- The first byte of a character of several, where its second one is as it has to be. -/
theorem first_begun {a : UInt8} {owed second : Nat} (hsecond : 0x80 ≤ second ∧ second ≤ 0xBF)
    (h : owed = 0 ∧ 0xC2 ≤ a.toNat ∧ a.toNat ≤ 0xDF ∨
      owed = 1 ∧ 0xE0 ≤ a.toNat ∧ a.toNat ≤ 0xEF ∧ (a.toNat = 0xE0 → 0xA0 ≤ second) ∧
        (a.toNat = 0xED → second ≤ 0x9F) ∨
      owed = 2 ∧ 0xF0 ≤ a.toNat ∧ a.toNat ≤ 0xF4 ∧ (a.toNat = 0xF0 → 0x90 ≤ second) ∧
        (a.toNat = 0xF4 → second ≤ 0x8F)) :
    ∃ p, first a = .begun p ∧ p.value = a.toNat % (32 / 2 ^ owed) ∧ p.owed = owed ∧ p.low.toNat ≤ second ∧
      second ≤ p.high.toNat := by
  rw [first]
  simp only [UInt8.lt_iff_toNat_lt, UInt8.le_iff_toNat_le, ← UInt8.toNat_inj, UInt8.reduceToNat]
  rcases h with ⟨rfl, h⟩ | ⟨rfl, h⟩ | ⟨rfl, h⟩
  all_goals
    split_ifs
    all_goals first
      | omega
      | refine ⟨_, rfl, rfl, rfl, ?_, ?_⟩ <;> simp only [UInt8.reduceToNat] <;> omega

def tailByte (n : Nat) : UInt8 := UInt8.ofNat (n % 64 + 128)

theorem tailByte_toNat (n : Nat) : (tailByte n).toNat = n % 64 + 128 := by
  rw [tailByte, UInt8.toNat_ofNat']
  omega

theorem tailByte_in {p : Begun} {n : Nat} (hlow : p.low.toNat ≤ n % 64 + 128) (hhigh : n % 64 + 128 ≤ p.high.toNat) :
    p.low ≤ tailByte n ∧ tailByte n ≤ p.high := by
  rw [UInt8.le_iff_toNat_le, UInt8.le_iff_toNat_le, tailByte_toNat]
  exact ⟨hlow, hhigh⟩

theorem tailByte_any {p : Begun} (hlow : p.low = 0x80) (hhigh : p.high = 0xBF) (n : Nat) :
    p.low ≤ tailByte n ∧ tailByte n ≤ p.high := by
  refine tailByte_in ?_ ?_
  · rw [hlow]
    exact Nat.le_add_left ..
  · rw [hhigh]
    have hn := Nat.mod_lt n (show 0 < 64 by decide)
    change n % 64 + 128 ≤ 191
    omega

theorem decode_two {a : UInt8} {n : Nat} (ha : a.toNat = n / 64 + 0xC0) (hn : 0x80 ≤ n ∧ n ≤ 0x7FF)
    (rest : List UInt8) : decode (a :: tailByte n :: rest) = Char.ofNat n :: decode rest := by
  obtain ⟨p, hbegun, hp, howed, hlow, hhigh⟩ := first_begun (a := a)
    (show 0x80 ≤ n % 64 + 128 ∧ n % 64 + 128 ≤ 0xBF by omega) (.inl ⟨rfl, by omega⟩)
  obtain ⟨hlow, hhigh⟩ := tailByte_in hlow hhigh
  have hvalue : p.value * 64 + (tailByte n).toNat % 64 = n := by
    rw [hp, ha, tailByte_toNat]
    omega
  rw [decode_begun hbegun, decodeFrom_last howed hlow hhigh, hvalue]

theorem decode_three {a : UInt8} {n : Nat} (ha : a.toNat = n / 4096 + 0xE0)
    (hn : 0x800 ≤ n ∧ n < 0xD800 ∨ 0xDFFF < n ∧ n ≤ 0xFFFF) (rest : List UInt8) :
    decode (a :: tailByte (n / 64) :: tailByte n :: rest) = Char.ofNat n :: decode rest := by
  obtain ⟨p, hbegun, hp, howed, hlow, hhigh⟩ := first_begun (a := a)
    (show 0x80 ≤ n / 64 % 64 + 128 ∧ n / 64 % 64 + 128 ≤ 0xBF by omega) (.inr (.inl ⟨rfl, by omega⟩))
  obtain ⟨hlow, hhigh⟩ := tailByte_in hlow hhigh
  obtain ⟨q, hq, howed', hlow', hhigh', hnext⟩ := decodeFrom_next howed hlow hhigh (tailByte n :: rest)
  obtain ⟨hlow', hhigh'⟩ := tailByte_any hlow' hhigh' n
  have hvalue : q.value * 64 + (tailByte n).toNat % 64 = n := by
    rw [hq, hp, ha, tailByte_toNat, tailByte_toNat]
    omega
  rw [decode_begun hbegun, hnext, decodeFrom_last howed' hlow' hhigh', hvalue]

theorem decode_four {a : UInt8} {n : Nat} (ha : a.toNat = n / 262144 + 0xF0) (hn : 0x10000 ≤ n ∧ n < 0x110000)
    (rest : List UInt8) :
    decode (a :: tailByte (n / 4096) :: tailByte (n / 64) :: tailByte n :: rest) = Char.ofNat n :: decode rest := by
  obtain ⟨p, hbegun, hp, howed, hlow, hhigh⟩ := first_begun (a := a)
    (show 0x80 ≤ n / 4096 % 64 + 128 ∧ n / 4096 % 64 + 128 ≤ 0xBF by omega) (.inr (.inr ⟨rfl, by omega⟩))
  obtain ⟨hlow, hhigh⟩ := tailByte_in hlow hhigh
  obtain ⟨q, hq, howed', hlow', hhigh', hnext⟩ :=
    decodeFrom_next howed hlow hhigh (tailByte (n / 64) :: tailByte n :: rest)
  obtain ⟨hlow', hhigh'⟩ := tailByte_any hlow' hhigh' (n / 64)
  obtain ⟨r, hr, howed'', hlow'', hhigh'', hlast⟩ := decodeFrom_next howed' hlow' hhigh' (tailByte n :: rest)
  obtain ⟨hlow'', hhigh''⟩ := tailByte_any hlow'' hhigh'' n
  have hvalue : r.value * 64 + (tailByte n).toNat % 64 = n := by
    rw [hr, hq, hp, ha, tailByte_toNat, tailByte_toNat, tailByte_toNat]
    omega
  rw [decode_begun hbegun, hnext, hlast, decodeFrom_last howed'' hlow'' hhigh'', hvalue]

theorem byte_toNat {m : Nat} (h : m < 256) : (UInt8.ofNat m).toNat = m :=
  UInt8.toNat_ofNat'.trans (Nat.mod_eq_of_lt h)

/-- The character that was encoded comes back. -/
theorem decode_encodeChar (c : Char) (rest : List UInt8) :
    decode (String.utf8EncodeChar c ++ rest) = c :: decode rest := by
  have hvalid : c.toNat < 0xD800 ∨ 0xDFFF < c.toNat ∧ c.toNat < 0x110000 := c.valid
  have hencode : String.utf8EncodeChar c =
      if c.toNat ≤ 0x7F then [UInt8.ofNat c.toNat]
      else if c.toNat ≤ 0x7FF then [UInt8.ofNat (c.toNat / 64 % 32 + 0xC0), tailByte c.toNat]
      else if c.toNat ≤ 0xFFFF then
        [UInt8.ofNat (c.toNat / 4096 % 16 + 0xE0), tailByte (c.toNat / 64), tailByte c.toNat]
      else [UInt8.ofNat (c.toNat / 262144 % 8 + 0xF0), tailByte (c.toNat / 4096), tailByte (c.toNat / 64),
        tailByte c.toNat] := rfl
  rw [hencode]
  conv_rhs => rw [← Char.ofNat_toNat c]
  split
  · have hbyte := byte_toNat (m := c.toNat) (by omega)
    have hascii : UInt8.ofNat c.toNat < 128 := by
      rw [UInt8.lt_iff_toNat_lt, hbyte]
      exact Nat.lt_succ_of_le ‹_›
    have hsplit := decode_ascii hascii [] rest
    rwa [hbyte] at hsplit
  · split
    · exact decode_two ((byte_toNat (by omega)).trans (by omega)) (by omega) rest
    · split
      · exact decode_three ((byte_toNat (by omega)).trans (by omega)) (by omega) rest
      · exact decode_four ((byte_toNat (by omega)).trans (by omega)) (by omega) rest

theorem decode_encode (text : List Char) : decode (encode text) = text := by
  induction text with
  | nil => rfl
  | cons c text ih =>
      rw [encode, List.flatMap_cons, decode_encodeChar]
      exact congrArg _ ih

example : decode [0x61, 0xE2, 0x82, 0xAC, 0xE2, 0x82, 0x0A, 0xFF, 0xC3] =
    ['a', '€', replacement, '\n', replacement, replacement] := by decide

end LocalDevProxy.Lib.LossyUtf8

/-!
Polynomials in one variable with rational coefficients, as the list of their terms: powers strictly
decreasing, no coefficient zero. So two polynomials are equal exactly when their coefficients are. Powers
are words of 64 bits: sums of powers, which only products and powers of polynomials form, wrap around.
-/

set_option autoImplicit false
set_option relaxedAutoImplicit false

namespace Tutor

/-- A power and its coefficient; the powers of a polynomial are words of 64 bits. -/
abbrev Term := Nat × Rat

namespace Poly

/-- Powers strictly decreasing and no coefficient zero. -/
def Canonical (ts : List Term) : Prop :=
  ts.Pairwise (fun s t => t.1 < s.1) ∧ ∀ t ∈ ts, t.2 ≠ 0

def Below (n : Nat) (ts : List Term) : Prop := ∀ t ∈ ts, t.1 < n

/-- The sum of two lists of terms: one pass over both, terms that cancel are left out. -/
def addTerms : List Term → List Term → List Term
  | [], q => q
  | p, [] => p
  | (n, c) :: p, (m, d) :: q =>
    if m < n then (n, c) :: addTerms p ((m, d) :: q)
    else if n < m then (m, d) :: addTerms ((n, c) :: p) q
    else if c + d = 0 then addTerms p q
    else (n, c + d) :: addTerms p q
termination_by p q => p.length + q.length

def scaleTerms (c : Rat) (ts : List Term) : List Term := ts.map fun t => (t.1, t.2 * c)

theorem below_cons {n : Nat} {t : Term} {ts : List Term} :
    Below n (t :: ts) ↔ t.1 < n ∧ Below n ts := by
  simp [Below]

theorem Below.mono {m n : Nat} {ts : List Term} (h : Below m ts) (hmn : m ≤ n) : Below n ts :=
  fun t ht => Nat.lt_of_lt_of_le (h t ht) hmn

private theorem canonical_nil : Canonical [] := ⟨.nil, by simp⟩

theorem canonical_cons {t : Term} {ts : List Term} :
    Canonical (t :: ts) ↔ t.2 ≠ 0 ∧ Below t.1 ts ∧ Canonical ts := by
  simp only [Canonical, List.pairwise_cons, List.mem_cons, forall_eq_or_imp, Below]
  constructor
  · rintro ⟨⟨hb, hs⟩, h0, hn⟩
    exact ⟨h0, hb, hs, hn⟩
  · rintro ⟨h0, hb, hs, hn⟩
    exact ⟨⟨hb, hs⟩, h0, hn⟩

private theorem below_addTerms {n : Nat} (p q : List Term) (hp : Below n p) (hq : Below n q) :
    Below n (addTerms p q) := by
  induction p, q using addTerms.induct with
  | case1 q => simpa [addTerms] using hq
  | case2 p h => cases p <;> simp_all [addTerms]
  | case3 k c p m d q h ih =>
    rw [addTerms, if_pos h, below_cons]
    exact ⟨(below_cons.mp hp).1, ih (below_cons.mp hp).2 hq⟩
  | case4 k c p m d q h h' ih =>
    rw [addTerms, if_neg h, if_pos h', below_cons]
    exact ⟨(below_cons.mp hq).1, ih hp (below_cons.mp hq).2⟩
  | case5 k c p m d q h h' h0 ih =>
    rw [addTerms, if_neg h, if_neg h', if_pos h0]
    exact ih (below_cons.mp hp).2 (below_cons.mp hq).2
  | case6 k c p m d q h h' h0 ih =>
    rw [addTerms, if_neg h, if_neg h', if_neg h0, below_cons]
    exact ⟨(below_cons.mp hp).1, ih (below_cons.mp hp).2 (below_cons.mp hq).2⟩

private theorem canonical_addTerms (p q : List Term) (hp : Canonical p) (hq : Canonical q) :
    Canonical (addTerms p q) := by
  induction p, q using addTerms.induct with
  | case1 q => simpa [addTerms] using hq
  | case2 p h => cases p <;> simp_all [addTerms]
  | case3 k c p m d q h ih =>
    rw [addTerms, if_pos h, canonical_cons]
    have ⟨hc, hb, hp'⟩ := canonical_cons.mp hp
    have ⟨_, hbq, _⟩ := canonical_cons.mp hq
    exact ⟨hc, below_addTerms _ _ hb (below_cons.mpr ⟨h, hbq.mono (Nat.le_of_lt h)⟩), ih hp' hq⟩
  | case4 k c p m d q h h' ih =>
    rw [addTerms, if_neg h, if_pos h', canonical_cons]
    have ⟨_, hbp, _⟩ := canonical_cons.mp hp
    have ⟨hd, hb, hq'⟩ := canonical_cons.mp hq
    exact ⟨hd, below_addTerms _ _ (below_cons.mpr ⟨h', hbp.mono (Nat.le_of_lt h')⟩) hb, ih hp hq'⟩
  | case5 k c p m d q h h' h0 ih =>
    rw [addTerms, if_neg h, if_neg h', if_pos h0]
    exact ih (canonical_cons.mp hp).2.2 (canonical_cons.mp hq).2.2
  | case6 k c p m d q h h' h0 ih =>
    rw [addTerms, if_neg h, if_neg h', if_neg h0, canonical_cons]
    have ⟨_, hb, hp'⟩ := canonical_cons.mp hp
    have ⟨_, hbq, hq'⟩ := canonical_cons.mp hq
    have hkm : k = m := by omega
    exact ⟨h0, below_addTerms _ _ hb (hkm ▸ hbq), ih hp' hq'⟩

private theorem below_scaleTerms {n : Nat} (c : Rat) {ts : List Term} (h : Below n ts) :
    Below n (scaleTerms c ts) := by
  intro t ht
  obtain ⟨s, hs, rfl⟩ := List.mem_map.mp ht
  exact h s hs

private theorem canonical_scaleTerms {c : Rat} (hc : c ≠ 0) {ts : List Term} (h : Canonical ts) :
    Canonical (scaleTerms c ts) := by
  induction ts with
  | nil => exact canonical_nil
  | cons t ts ih =>
    have ⟨h0, hb, ht⟩ := canonical_cons.mp h
    refine canonical_cons.mpr ⟨?_, below_scaleTerms c hb, ih ht⟩
    simp only [ne_eq, Rat.mul_eq_zero, h0, hc, or_self, not_false_eq_true]

end Poly

structure Poly where
  /-- Powers and coefficients, highest power first. -/
  terms : List Term
  canonical : Poly.Canonical terms
  words : Poly.Below UInt64.size terms
  deriving DecidableEq

namespace Poly

def zero : Poly := ⟨[], canonical_nil, by simp [Below]⟩

/-- The polynomial `c · x^k`; the power wraps around. -/
def monomial (k : Nat) (c : Rat) : Poly :=
  if h : c = 0 then zero
  else ⟨[(k % UInt64.size, c)], canonical_cons.mpr ⟨h, by simp [Below], canonical_nil⟩,
    below_cons.mpr ⟨Nat.mod_lt k (by decide), by simp [Below]⟩⟩

def const (c : Rat) : Poly := monomial 0 c

def one : Poly := const 1

def x : Poly := monomial 1 1

def linear (r : Rat) : Poly :=
  if h : r = 0 then x
  else ⟨[(1, 1), (0, -r)], by
    have hr : -r ≠ 0 := fun h' => h (by grind)
    simp [canonical_cons, canonical_nil, Below, hr], by simp [Below, UInt64.size]⟩

def add (p q : Poly) : Poly :=
  ⟨addTerms p.terms q.terms, canonical_addTerms _ _ p.canonical q.canonical,
    below_addTerms _ _ p.words q.words⟩

def scale (p : Poly) (c : Rat) : Poly :=
  if h : c = 0 then zero
  else ⟨scaleTerms c p.terms, canonical_scaleTerms h p.canonical, below_scaleTerms c p.words⟩

def neg (p : Poly) : Poly := p.scale (-1)

def sub (p q : Poly) : Poly := p.add q.neg

def shift (k : Nat) (c : Rat) (p : Poly) : Poly :=
  p.terms.foldr (fun t acc => (monomial (t.1 + k) (t.2 * c)).add acc) zero

/-- The product of two polynomials: the second one times every term of the first, summed up. -/
def mul (p q : Poly) : Poly := p.terms.foldr (fun t acc => (q.shift t.1 t.2).add acc) zero

instance : Zero Poly := ⟨zero⟩
instance : One Poly := ⟨one⟩
instance : Add Poly := ⟨add⟩
instance : Sub Poly := ⟨sub⟩
instance : Mul Poly := ⟨mul⟩
instance : Neg Poly := ⟨neg⟩
instance : Inhabited Poly := ⟨zero⟩

/-- Multiplies a product by a power, by squaring. The square is also taken after the last digit of the
exponent, where it is not used any more. -/
def powerFrom (product base : Poly) (n : Nat) : Poly :=
  if n = 0 then product
  else powerFrom (if n % 2 = 1 then product * base else product) (base * base) (n / 2)
termination_by n

def power (p : Poly) (n : Nat) : Poly := powerFrom 1 p n

def ofCoeffs (cs : List Rat) : Poly :=
  cs.foldr (fun c p => monomial 0 c + p.shift 1 1) 0

def isZero (p : Poly) : Bool := p.terms.isEmpty

def isOne (p : Poly) : Bool := p.terms == [(0, 1)]

def degree? (p : Poly) : Option Nat := p.terms.head?.map Prod.fst

/-- The number of coefficients of a polynomial: its degree plus one, zero for the zero polynomial. -/
def bound (p : Poly) : Nat := (p.degree?.map (· + 1)).getD 0

def leading (p : Poly) : Rat := (p.terms.head?.map Prod.snd).getD 0

def coeff (p : Poly) (n : Nat) : Rat := (p.terms.lookup n).getD 0

def tail (p : Poly) : Poly :=
  ⟨p.terms.tail, by
    have h := p.canonical
    cases hp : p.terms with
    | nil => exact canonical_nil
    | cons t ts => rw [hp] at h; exact (canonical_cons.mp h).2.2,
    fun t ht => p.words t (List.mem_of_mem_tail ht)⟩

def derivative (p : Poly) : Poly :=
  p.terms.foldr (fun t acc => monomial (t.1 - 1) (t.2 * (t.1 : Rat)) + acc) 0

/-- The polynomial divided by its leading coefficient; zero stays zero. -/
def monic (p : Poly) : Poly := if p.isZero then p else p.scale (1 / p.leading)

def eval (p : Poly) (a : Rat) : Rat := p.terms.foldr (fun t acc => t.2 * a ^ t.1 + acc) 0

theorem bound_le_iff (p : Poly) (n : Nat) : p.bound ≤ n ↔ Below n p.terms := by
  have h := p.canonical
  simp only [bound, degree?]
  cases hp : p.terms with
  | nil => simp [Below]
  | cons t ts =>
    rw [hp] at h
    have ⟨_, hb, _⟩ := canonical_cons.mp h
    simp only [List.head?_cons, Option.map_some, Option.getD_some, below_cons]
    constructor
    · intro ht
      exact ⟨by omega, hb.mono (by omega)⟩
    · intro ht
      omega

theorem bound_eq_zero_iff (p : Poly) : p.bound = 0 ↔ p.isZero = true := by
  simp only [bound, degree?, isZero]
  cases p.terms <;> simp

theorem bound_zero : (0 : Poly).bound = 0 := rfl

theorem bound_add_le (p q : Poly) {n : Nat} (hp : p.bound ≤ n) (hq : q.bound ≤ n) :
    (p + q).bound ≤ n := by
  rw [bound_le_iff] at *
  exact below_addTerms _ _ hp hq

theorem bound_le_size (p : Poly) : p.bound ≤ UInt64.size := (bound_le_iff p _).mpr p.words

private theorem bound_scale_le (c : Rat) (p : Poly) {n : Nat} (hp : p.bound ≤ n) : (p.scale c).bound ≤ n := by
  rw [bound_le_iff] at *
  simp only [scale]
  split
  · simp [zero, Below]
  · exact below_scaleTerms c hp

theorem bound_sub_le (p q : Poly) {n : Nat} (hp : p.bound ≤ n) (hq : q.bound ≤ n) :
    (p - q).bound ≤ n :=
  bound_add_le p q.neg hp (bound_scale_le (-1) q hq)

theorem bound_monomial_le (k : Nat) (c : Rat) : (monomial k c).bound ≤ k + 1 := by
  have wrapped := Nat.mod_le k UInt64.size
  rw [bound_le_iff]
  simp only [monomial]
  split
  · simp [Below, zero]
  · exact below_cons.mpr ⟨by omega, by simp [Below]⟩

theorem bound_shift_le (k : Nat) (c : Rat) (p : Poly) {n : Nat} (hp : p.bound ≤ n) :
    (p.shift k c).bound ≤ n + k := by
  have partialSum (ts : List Term) (h : Below n ts) :
      (ts.foldr (fun t acc => (monomial (t.1 + k) (t.2 * c)).add acc) zero).bound ≤ n + k := by
    induction ts with
    | nil => simp [zero, bound, degree?]
    | cons t ts ih =>
      have ⟨ht, hts⟩ := below_cons.mp h
      have first := bound_monomial_le (t.1 + k) (t.2 * c)
      exact bound_add_le _ _ (by omega) (ih hts)
  exact partialSum p.terms ((bound_le_iff p n).mp hp)

theorem bound_tail_lt (p : Poly) (h : p.bound ≠ 0) : p.tail.bound < p.bound := by
  have hc := p.canonical
  have : p.tail.bound ≤ p.bound - 1 := by
    rw [bound_le_iff]
    simp only [tail, bound, degree?] at *
    cases hp : p.terms with
    | nil => simp [Below]
    | cons t ts =>
      rw [hp] at hc
      simpa using (canonical_cons.mp hc).2.1
  omega

/-- The largest power wraps around. -/
example : (monomial (2 ^ 63) 2 * monomial (2 ^ 63) 3).terms = [(0, 6)] := by decide +kernel

example : (linear 2 * linear (-2)).terms = [(2, 1), (0, -4)] := by decide +kernel

end Poly

end Tutor

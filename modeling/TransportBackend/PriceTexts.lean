import TransportBackend.DoubleRange
import TransportBackend.TextPatterns
import TransportBackend.TripFareRules

/-!
# Amounts and weights as they are typed and shown

A port of `cargoPrice.ts`, `price.ts` and the readers and printers of `tripFare.ts`.  A text is the
list of its characters.  What JavaScript normalizes a text with (`normalize('NFKC')`, `toLowerCase`) is
a parameter (`Normalizer`).

* `parseCargoPrice`, `parsePriceToman`: the two readers of a load's price;
* `readAmount`, `readWeight`: what the company typed;
* `faNumber`, `moneyText`, `moneyWords`: what it is shown.
-/

namespace TransportBackend.PriceTexts

open TransportBackend.Binary64
open TransportBackend.DoubleRange
open TransportBackend.TextPatterns
open TransportBackend.TripFareRules

/-! ### Digits -/

/-- A Persian or Arabic digit as a Latin one. -/
def latinDigit (c : Char) : Char :=
  if 0x06F0 ≤ c.toNat ∧ c.toNat ≤ 0x06F9 then Char.ofNat (c.toNat - 0x06F0 + 48)
  else if 0x0660 ≤ c.toNat ∧ c.toNat ≤ 0x0669 then Char.ofNat (c.toNat - 0x0660 + 48)
  else c

/-- `latin`. -/
def latin (text : List Char) : List Char := text.map latinDigit

def persianDigit (c : Char) : Char :=
  if c.isDigit then Char.ofNat (c.toNat - 48 + 0x06F0) else c

/-- `persian`. -/
def persian (text : List Char) : List Char := text.map persianDigit

/-- `String(n)` of a whole number that is exact. -/
def digitsOf (n : ℕ) : List Char := Nat.toDigits 10 n

/-- `Number` of a figure. -/
def numberOf (f : Figure) : WithTop ℚ :=
  double (Nat.ofDigitChars 10 f.whole 0 + Nat.ofDigitChars 10 f.fraction 0 / 10 ^ f.fraction.length)

/-! ### Number words -/

def numberWords : List (String × ℕ) :=
  [("یک", 1), ("دو", 2), ("سه", 3), ("چهار", 4), ("پنج", 5), ("شش", 6), ("هفت", 7), ("هشت", 8),
    ("نه", 9), ("ده", 10), ("یازده", 11), ("دوازده", 12), ("سیزده", 13), ("چهارده", 14),
    ("پانزده", 15), ("شانزده", 16), ("هفده", 17), ("هجده", 18), ("نوزده", 19), ("بیست", 20),
    ("سی", 30), ("چهل", 40), ("پنجاه", 50), ("شصت", 60), ("هفتاد", 70), ("هشتاد", 80), ("نود", 90),
    ("صد", 100), ("یکصد", 100), ("دویست", 200), ("سیصد", 300), ("چهارصد", 400), ("پانصد", 500),
    ("ششصد", 600), ("هفتصد", 700), ("هشتصد", 800), ("نهصد", 900)]

/-- What every object inherits: such a word is `in WORDS` too, and no number. -/
def inheritedNames : List String :=
  ["constructor", "__defineGetter__", "__defineSetter__", "hasOwnProperty", "__lookupGetter__",
    "__lookupSetter__", "isPrototypeOf", "propertyIsEnumerable", "toString", "valueOf", "__proto__",
    "toLocaleString"]

/-- `WORDS[part]` of a part that is `in WORDS`; an inherited name has no number. -/
def wordNumber (part : List Char) : Option (Option ℕ) :=
  if String.ofList part ∈ inheritedNames then some none
  else ((numberWords.find? fun entry => entry.1 = String.ofList part).map Prod.snd).map some

/-- The sum of number words, none without one; not a number (`some none`) when one of them is
inherited.  «و» is no number word, so it makes no difference that the text is split at it as well. -/
def wordsValue (text : List Char) : Option (Option ℕ) :=
  match (text.splitOnP isJsSpace).filterMap wordNumber with
  | [] => none
  | parts => some (parts.foldl (fun sum part => sum.bind fun n => part.map (n + ·)) (some 0))

/-! ### The reader of the totals -/

/-- `CargoPriceCurrency`: the codes are those of `FareCurrency`. -/
abbrev CargoPriceCurrency : Type := FareCurrency

structure CargoPrice where
  amount : WithTop ℤ
  currency : CargoPriceCurrency
  deriving DecidableEq

def minBareTomans : ℚ := 1000000

def milliard : List Char := ['م', 'ی', 'ل', 'ی', 'ا', 'ر', 'د']

def million : List Char := ['م', 'ی', 'ل', 'ی', 'و', 'ن']

def thousand : List Char := ['ه', 'ز', 'ا', 'ر']

def toman : List Char := ['ت', 'و', 'م', 'ا', 'ن']

def rial : List Char := ['ر', 'ی', 'ا', 'ل']

/-- `/میلیارد|ملیارد/`. -/
def milliardPattern : Pattern := oneOf [word milliard, word ['م', 'ل', 'ی', 'ا', 'ر', 'د']]

/-- `/میلیون|ملیون|م\b/`. -/
def millionPattern : Pattern :=
  oneOf [word million, word ['م', 'ل', 'ی', 'و', 'ن'], endsWord (· == 'م')]

/-- `/هزار|k\b/i`. -/
def thousandPattern : Pattern := oneOf [word thousand, endsWord fun c => c.toLower == 'k']

/-- `SCALES`. -/
def scales : List (Pattern × ℕ) :=
  [(milliardPattern, 1000000000), (millionPattern, 1000000), (thousandPattern, 1000)]

/-- `CURRENCIES`. -/
def currencies : List (Pattern × CargoPriceCurrency) :=
  [(oneOf [word ['د', 'ل', 'ا', 'ر'], word ['$'], wordI ['u', 's', 'd']], .dollar),
    (oneOf [word ['ی', 'و', 'ر', 'و'], word ['€'], wordI ['e', 'u', 'r']], .euro),
    (oneOf [word ['د', 'ر', 'ه', 'م'], wordI ['a', 'e', 'd']], .dirham),
    (oneOf [word ['ل', 'ی', 'ر'], wordI ['t', 'r', 'y']], .lira)]

/-- The first of a list of patterns that matches somewhere. -/
def firstOf {α : Type} (table : List (Pattern × α)) (text : List Char) : Option α :=
  (table.find? fun entry => occurs entry.1 text).map Prod.snd

/-- Three digits follow. -/
def threeDigits : List Char → Bool
  | a :: b :: c :: _ => a.isDigit && b.isDigit && c.isDigit
  | _ => false

/-- `replace(/[٬,،](?=\d{3})/g, '')`. -/
def withoutSeparators : List Char → List Char :=
  omitWhere fun c t => (c == '٬' || c == ',' || c == '،') && threeDigits t

/-- `replace(/٫/g, '.')`. -/
def pointed (text : List Char) : List Char := text.map fun c => if c == '٫' then '.' else c

/-- `trim()`. -/
def trim (text : List Char) : List Char :=
  ((text.dropWhile isJsSpace).reverse.dropWhile isJsSpace).reverse

/-- The text as `parseCargoPrice` reads it. -/
def cleaned (raw : List Char) : List Char := trim (pointed (withoutSeparators (latin raw)))

/-- The figure and what follows it, or the value of the number words and the whole text. -/
def valueAndTail (text : List Char) : Option (WithTop ℚ × List Char) :=
  match firstFigure text with
  | some (figure, tail) => some (numberOf figure, tail)
  | none =>
      match wordsValue text with
      | some (some n) => some (((n : ℚ) : WithTop ℚ), text)
      | _ => none

/-- `/ریال/` or `/تومان/` is written. -/
def tomanOrRial : Pattern := oneOf [word toman, word rial]

def parseCargoPrice (raw : List Char) : Option CargoPrice :=
  if raw = [] then none
  else
    let text := cleaned raw
    let currency := (firstOf currencies text).getD .toman
    match valueAndTail text with
    | none => none
    | some (value, tail) =>
        if value = ⊤ ∨ value ≤ 0 then none
        else
          let scale := (firstOf scales tail).getD 1
          let unitWritten := decide (currency ≠ .toman) || occurs tomanOrRial text
          if unitWritten = false ∧ scale = 1 ∧ value < (minBareTomans : WithTop ℚ) then none
          else
            let scaled := times value scale
            let tomans :=
              if currency = .toman ∧ occurs (word rial) text then dividedBy scaled 10 else scaled
            some ⟨rounded tomans, currency⟩

/-! ### The reader of the filters -/

/-- `normalize('NFKC')` and `toLowerCase()`. -/
structure Normalizer where
  nfkc : List Char → List Char
  lowerCase : List Char → List Char

/-- The invisible characters left out of a text. -/
def isInvisible (c : Char) : Bool :=
  (0x200B ≤ c.toNat && c.toNat ≤ 0x200F) || (0x202A ≤ c.toNat && c.toNat ≤ 0x202E) ||
    (0x2066 ≤ c.toNat && c.toNat ≤ 0x2069) || c.toNat == 0xFEFF

/-- Arabic `ي`, `ى` and `ك` as the Persian letters. -/
def persianLetter (c : Char) : Char :=
  if c = 'ي' ∨ c = 'ى' then 'ی' else if c = 'ك' then 'ک' else c

def normalizePersianText (n : Normalizer) (text : List Char) : List Char :=
  n.lowerCase (trim (collapseSpaces false
    (latin (((n.nfkc text).filter fun c => !isInvisible c).map persianLetter))))

/-- Three digits follow, and no fourth. -/
def groupFollows : List Char → Bool
  | a :: b :: c :: t => a.isDigit && b.isDigit && c.isDigit && !t.head?.any Char.isDigit
  | _ => false

/-- What may stand between two groups of digits. -/
def isGroupSeparator (c : Char) : Bool := c ∈ [',', '٬', '\'', '’', ' ']

/-- `replace(/(\d)[,٬'’ ](?=\d{3}(\D|$))/g, '$1')`. -/
def withoutGroups : List Char → List Char
  | [] => []
  | [c] => [c]
  | c :: d :: t =>
      if c.isDigit && isGroupSeparator d && groupFollows t then c :: withoutGroups t
      else c :: withoutGroups (d :: t)

/-- `MULTIPLIERS`. -/
def multipliers : List (Pattern × ℕ) :=
  [(milliardPattern, 1000000000), (oneOf [word million, word ['م', 'ل', 'ی', 'و', 'ن']], 1000000),
    (word thousand, 1000)]

/-- The multipliers that are written, each with its place. -/
def written (rest : List Char) : List (ℕ × ℕ) :=
  multipliers.filterMap fun entry => (searchAt entry.1 rest).map fun place => (place, entry.2)

/-- The multiplier written first. -/
def firstMultiplier (rest : List Char) : Option ℕ := ((written rest).argmin Prod.fst).map Prod.snd

def parsePriceToman (n : Normalizer) (text : List Char) : Option ℤ :=
  if text = [] then none
  else
    let normalized := pointed (withoutGroups (normalizePersianText n text))
    match firstFigure normalized with
    | none => none
    | some (figure, rest) =>
        let amount :=
          match firstMultiplier rest with
          | some multiplier => times (numberOf figure) multiplier
          | none => numberOf figure
        let tomans := if occurs (word rial) normalized then dividedBy amount 10 else amount
        if tomans = ⊤ ∨ tomans ≤ 0 then none else finite (rounded tomans)

/-! ### What the company typed -/

/-- What is left out of a bare amount: `/[\s,٬]/g`. -/
def isAmountFiller (c : Char) : Bool := isJsSpace c || c == ',' || c == '٬'

structure Amount where
  amount : ℕ
  currency : FareCurrency
  deriving DecidableEq

/-- A positive safe whole number. -/
def safeAmount (amount : WithTop ℤ) (currency : FareCurrency) : Option Amount :=
  match amount with
  | some a => if 0 < a ∧ a ≤ maxSafeInteger then some ⟨a.toNat, currency⟩ else none
  | none => none

def readAmount (text : List Char) : Option Amount :=
  if text = [] then none
  else
    let clean := (latin text).filter fun c => !isAmountFiller c
    if clean ≠ [] ∧ clean.all Char.isDigit then safeAmount (rounded (numberOf ⟨clean, []⟩)) .toman
    else (parseCargoPrice text).bind fun price => safeAmount price.amount price.currency

inductive WeightUnit where
  | ton
  | kg
  deriving DecidableEq

/-- `/کیلو|kg/i`. -/
def kiloPattern : Pattern := oneOf [word ['ک', 'ی', 'ل', 'و'], wordI ['k', 'g']]

/-- `/تن|ton/i`. -/
def tonPattern : Pattern := oneOf [word ['ت', 'ن'], wordI ['t', 'o', 'n']]

/-- `replace(/[,٬](?=\d{3})/g, '')`. -/
def withoutCommas : List Char → List Char :=
  omitWhere fun c t => (c == ',' || c == '٬') && threeDigits t

/-- The figure of a weight, or its number words when a unit stands beside them. -/
def weightValue (clean : List Char) : Option ℚ :=
  match firstFigure clean with
  | some (figure, _) => finite (numberOf figure)
  | none =>
      if occurs tonPattern clean || occurs kiloPattern clean then (wordsValue clean).join.map fun n => (n : ℚ)
      else none

/-- A weight in tons; `Infinity` comes to nothing, as a number above the limit does. -/
def readWeight (text : List Char) (unit : WeightUnit) : Option ℚ :=
  if text = [] then none
  else
    let clean := withoutCommas (pointed (latin text))
    match weightValue clean with
    | none => none
    | some value =>
        if value = 0 then none
        else
          let kilos := occurs kiloPattern clean ||
            (!occurs tonPattern clean && (unit == .kg || decide (maxWeightTons < value))) ||
              decide (1000 ≤ value)
          let tons := roundHundredths (if kilos then binary64 (value / 1000) else value)
          if 0 < tons ∧ tons ≤ maxWeightTons then some tons else none

/-! ### What it is shown -/

/-- `replace(/\B(?=(\d{3})+(?!\d))/g, '٬')` on a text of digits. -/
def grouped : List Char → List Char
  | [] => []
  | c :: t => if t ≠ [] ∧ 3 ∣ t.length then c :: '٬' :: grouped t else c :: grouped t

/-- `faNumber` of a whole number. -/
def faNumber (n : ℕ) : List Char := persian (grouped (digitsOf n))

/-- `FARE_CURRENCY_LABEL`. -/
def fareCurrencyLabel : FareCurrency → List Char
  | .toman => toman
  | .dollar => ['د', 'ل', 'ا', 'ر']
  | .euro => ['ی', 'و', 'ر', 'و']
  | .dirham => ['د', 'ر', 'ه', 'م']
  | .lira => ['ل', 'ی', 'ر']

def moneyText (amount : ℕ) (currency : FareCurrency) : List Char :=
  faNumber amount ++ ' ' :: fareCurrencyLabel currency

/-- The sizes of the groups and their words. -/
def groupSizes : List (ℕ × List Char) :=
  [(1000000000, milliard), (1000000, million), (1000, thousand)]

/-- The parts of an amount, from the largest group; what is left comes last, as a figure alone. -/
def moneyParts : List (ℕ × List Char) → ℕ → List (List Char)
  | [], rest => if rest = 0 then [] else [persian (digitsOf rest)]
  | (size, name) :: sizes, rest =>
      let parts := moneyParts sizes (rest % size)
      if rest / size = 0 then parts else (persian (digitsOf (rest / size)) ++ ' ' :: name) :: parts

/-- The parts with `' و '` between them, or `'۰'` when there are none. -/
def joinedParts : List (List Char) → List Char
  | [] => ['۰']
  | parts => [' ', 'و', ' '].intercalate parts

/-- `moneyWords`. -/
def moneyWords (amount : ℕ) (currency : FareCurrency) : List Char :=
  match currency with
  | .toman => joinedParts (moneyParts groupSizes amount) ++ ' ' :: toman
  | _ => moneyText amount currency

end TransportBackend.PriceTexts

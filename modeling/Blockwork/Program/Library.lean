import Blockwork.Text.Quoted

set_option autoImplicit false

namespace Blockwork.Library

def rangeChecks : List String :=
  ["#ifndef BLOCKC_RANGE_CHECKS_H",
    "#define BLOCKC_RANGE_CHECKS_H",
    "",
    "#include <limits>",
    "",
    "namespace lellib \x7b",
    "",
    "// x + val overflows when x > maxPositive<val>() or x < minNegative<val>()",
    "template <typename T>",
    "struct addition \x7b",
    "\ttemplate <T val>",
    "\tstatic constexpr T maxPositive() \x7b",
    "\t\treturn std::numeric_limits<T>::max() - val;",
    "\t\x7d",
    "",
    "\ttemplate <T val>",
    "\tstatic constexpr T minNegative() \x7b",
    "\t\treturn std::numeric_limits<T>::lowest() - val;",
    "\t\x7d",
    "",
    "\tstatic inline bool safe(T a, T b) \x7b",
    "\t\treturn b < 0 ? a >= std::numeric_limits<T>::lowest() - b : a <= std::numeric_limits<T>::max() - b;",
    "\t\x7d",
    "\x7d;",
    "",
    "template <typename T, T max>",
    "struct ubound_addition \x7b",
    "\ttemplate <T val>",
    "\tstatic constexpr T maxPositive() \x7b",
    "\t\treturn max - val;",
    "\t\x7d",
    "",
    "\ttemplate <T val>",
    "\tstatic constexpr T minNegative() \x7b",
    "\t\treturn std::numeric_limits<T>::lowest() - val;",
    "\t\x7d",
    "\x7d;",
    "",
    "template <typename T, T min>",
    "struct lbound_addition \x7b",
    "\ttemplate <T val>",
    "\tstatic constexpr T maxPositive() \x7b",
    "\t\treturn std::numeric_limits<T>::max() - val;",
    "\t\x7d",
    "",
    "\ttemplate <T val>",
    "\tstatic constexpr T minNegative() \x7b",
    "\t\treturn min - val;",
    "\t\x7d",
    "\x7d;",
    "",
    "template <typename T, T min, T max>",
    "struct rbound_addition \x7b",
    "\ttemplate <T val>",
    "\tstatic constexpr T maxPositive() \x7b",
    "\t\treturn max - val;",
    "\t\x7d",
    "",
    "\ttemplate <T val>",
    "\tstatic constexpr T minNegative() \x7b",
    "\t\treturn min - val;",
    "\t\x7d",
    "\x7d;",
    "",
    "// x - val overflows when x < minPositive<val>() or x > maxNegative<val>()",
    "template <typename T>",
    "struct subtraction \x7b",
    "\ttemplate <T val>",
    "\tstatic constexpr T minPositive() \x7b",
    "\t\treturn std::numeric_limits<T>::lowest() + val;",
    "\t\x7d",
    "",
    "\ttemplate <T val>",
    "\tstatic constexpr T maxNegative() \x7b",
    "\t\treturn std::numeric_limits<T>::max() + val;",
    "\t\x7d",
    "",
    "\tstatic inline bool safe(T a, T b) \x7b",
    "\t\treturn b < 0 ? a <= std::numeric_limits<T>::max() + b : a >= std::numeric_limits<T>::lowest() + b;",
    "\t\x7d",
    "\x7d;",
    "",
    "\x7d  // namespace lellib",
    "",
    "#endif"]

def all : List (String × List String) := [("RangeChecks", rangeChecks)]

def source? (name : String) : Option String :=
  (all.find? (·.1 = name)).map fun (_, lines) => String.join (lines.map (· ++ "\n"))

def unknownMessage (name : String) : String :=
  s!"unknown library {Text.quoted name}: open lib/{name}.h: file does not exist"

end Blockwork.Library

import ColorLowering.Target

/-!
# The preamble

Support code that stands once at the head of the body: headers, and the namespace of the built-in
functions. A word between `@` signs is a slot; the slots are filled one kind after another, in the
order of `slots`, each wherever it then occurs.
-/
namespace ColorLowering.Preamble

/-- The included headers and the records that the library functions share. -/
def banner : List String := [
  "// C++ code automatically generated",
  "",
  "#include <ImathVec.h>",
  "#include <ImathMatrix.h>",
  "#include <ImathFun.h>",
  "#include <half.h>",
  "#include <float.h>",
  "#include <math.h>",
  "#include <limits.h>",
  "#include <iostream>",
  "#include <stdexcept>",
  "#include <limits>",
  "#include <vector>",
  "#include <CtlLookupTable.h>",
  "",
  "using namespace Ctl;",
  "",
  "namespace _ctlcc_ \x7b",
  "",
  "struct Chromaticities \x7b @V2F@ red; @V2F@ green; @V2F@ blue; @V2F@ white; \x7d;",
  "struct Box2i \x7b @V2I@ min; @V2I@ max; \x7d;",
  "struct Box2f \x7b @V2F@ min; @V2F@ max; \x7d;",
  ""]

/-- Assertion and printing. -/
def printing : List String := [
  "static inline void assert( bool v ) \x7b if (!v) throw std::logic_error( \"Assertion failure\" ); \x7d",
  "",
  "static inline void print_bool( bool v ) \x7b std::cout << (v ? \"true\" : \"false\"); \x7d",
  "static inline void print_int( int v ) \x7b std::cout << v; \x7d",
  "static inline void print_unsigned_int( unsigned int v ) \x7b std::cout << v; \x7d",
  "static inline void print_half( half v ) \x7b std::cout << v; \x7d",
  "static inline void print_float( @T@ v ) \x7b std::cout << v; \x7d",
  "static inline void print_string( const std::string &v ) \x7b std::cout << v; \x7d",
  "static inline void print_string( const char *v ) \x7b std::cout << v; \x7d",
  ""]

/-- Classification of numbers, and the names of the values that no digits denote. -/
def classification : List String := [
  "static inline bool isfinite_f( @T@ v ) \x7b return isfinite( v ); \x7d",
  "static inline bool isnormal_f( @T@ v ) \x7b return isnormal( v ); \x7d",
  "static inline bool isnan_f( @T@ v ) \x7b return isnan( v ); \x7d",
  "static inline bool isinf_f( @T@ v ) \x7b return isinf( v ) != 0; \x7d",
  "static inline bool isfinite_h( half v ) \x7b return v.isFinite(); \x7d",
  "static inline bool isnormal_h( half v ) \x7b return v.isNormalized(); \x7d",
  "static inline bool isnan_h( half v ) \x7b return v.isNan(); \x7d",
  "static inline bool isinf_h( half v ) \x7b return v.isInfinity() != 0; \x7d",
  "",
  "#define FLT_POS_INF std::numeric_limits<@T@>::infinity()",
  "#define FLT_NEG_INF (-std::numeric_limits<@T@>::infinity())",
  "#define FLT_NAN (-std::numeric_limits<@T@>::quiet_NaN())",
  "#define HALF_POS_INF half::posInf()",
  "#define HALF_NEG_INF half::negInf()",
  "#define HALF_NAN half::qNan()",
  ""]

/-- The mathematics library, in the precision of the scalar. -/
def mathematics : List String := [
  "static inline @T@ acos( @T@ v ) \x7b return ::acos@S@( v ); \x7d",
  "static inline @T@ asin( @T@ v ) \x7b return ::asin@S@( v ); \x7d",
  "static inline @T@ atan( @T@ v ) \x7b return ::atan@S@( v ); \x7d",
  "static inline @T@ atan2( @T@ y, @T@ x ) \x7b return ::atan2@S@( y, x ); \x7d",
  "static inline @T@ cos( @T@ v ) \x7b return ::cos@S@( v ); \x7d",
  "static inline @T@ sin( @T@ v ) \x7b return ::sin@S@( v ); \x7d",
  "static inline @T@ tan( @T@ v ) \x7b return ::tan@S@( v ); \x7d",
  "static inline @T@ cosh( @T@ v ) \x7b return ::cosh@S@( v ); \x7d",
  "static inline @T@ sinh( @T@ v ) \x7b return ::sinh@S@( v ); \x7d",
  "static inline @T@ tanh( @T@ v ) \x7b return ::tanh@S@( v ); \x7d",
  "static inline @T@ exp( @T@ v ) \x7b return ::exp@S@( v ); \x7d",
  "static inline @T@ log( @T@ v ) \x7b return ::log@S@( v ); \x7d",
  "static inline @T@ log10( @T@ v ) \x7b return ::log10@S@( v ); \x7d",
  "static inline @T@ pow( @T@ x, @T@ y ) \x7b return ::pow@S@( x, y ); \x7d",
  "static inline @T@ pow10( @T@ y ) \x7b return ::pow@S@( 10.0, y ); \x7d",
  "static inline @T@ sqrt( @T@ v ) \x7b return ::sqrt@S@( v ); \x7d",
  "static inline @T@ fabs( @T@ v ) \x7b return ::fabs@S@( v ); \x7d",
  "static inline @T@ floor( @T@ v ) \x7b return ::floor@S@( v ); \x7d",
  "static inline @T@ fmod( @T@ x, @T@ y ) \x7b return ::fmod@S@( x, y ); \x7d",
  "static inline @T@ hypot( @T@ x, @T@ y ) \x7b return ::hypot@S@( x, y ); \x7d",
  ""]

/-- The mathematics functions on halves. -/
def halves : List String := [
  "static inline half exp_h( @T@ v ) \x7b return half( exp( v ) ); \x7d",
  "static inline @T@ log_h( half v ) \x7b return log( float( v ) ); \x7d",
  "static inline @T@ log10_h( half v ) \x7b return log10( float( v ) ); \x7d",
  "static inline half pow_h( half x, @T@ y ) \x7b return half( pow( float( x ), y ) ); \x7d",
  "static inline half pow10_h( @T@ v ) \x7b return half( pow( 10.0, v ) ); \x7d",
  ""]

/-- Vector and matrix arithmetic. -/
def matrices : List String := [
  "static inline @M33@ mult_f33_f33( const @M33@ &a, const @M33@ &b ) \x7b return a * b; \x7d",
  "static inline @M44@ mult_f44_f44( const @M44@ &a, const @M44@ &b ) \x7b return a * b; \x7d",
  "static inline @M33@ mult_f_f33( @T@ a, const @M33@ &b ) \x7b return a * b; \x7d",
  "static inline @M44@ mult_f_f44( @T@ a, const @M44@ &b ) \x7b return a * b; \x7d",
  "static inline @M33@ add_f33_f33( const @M33@ &a, const @M33@ &b ) \x7b return a + b; \x7d",
  "static inline @M44@ add_f44_f44( const @M44@ &a, const @M44@ &b ) \x7b return a + b; \x7d",
  "static inline @M33@ invert_f33( const @M33@ &a ) \x7b return a.inverse(); \x7d",
  "static inline @M44@ invert_f44( const @M44@ &a ) \x7b return a.inverse(); \x7d",
  "static inline @M33@ transpose_f33( const @M33@ &a ) \x7b return a.transposed(); \x7d",
  "static inline @M44@ transpose_f44( const @M44@ &a ) \x7b return a.transposed(); \x7d",
  "static inline @V3@ mult_f3_f33( const @V3@ &a, const @M33@ &b ) \x7b return a * b; \x7d",
  "static inline @V3@ mult_f3_f44( const @V3@ &a, const @M44@ &b ) \x7b return a * b; \x7d",
  "static inline @V3@ mult_f_f3( @T@ a, const @V3@ &b ) \x7b return a * b; \x7d",
  "static inline @V3@ add_f3_f3( const @V3@ &a, const @V3@ &b ) \x7b return a + b; \x7d",
  "static inline @V3@ sub_f3_f3( const @V3@ &a, const @V3@ &b ) \x7b return a - b; \x7d",
  "static inline @V3@ cross_f3_f3( const @V3@ &a, const @V3@ &b ) \x7b return a.cross( b ); \x7d",
  "static inline @T@ dot_f3_f3( const @V3@ &a, const @V3@ &b ) \x7b return a.dot( b ); \x7d",
  "static inline @T@ length_f3( const @V3@ &a ) \x7b return a.length(); \x7d",
  ""]

/-- Conversions between color spaces. -/
def colorSpaces : List String := [
  "namespace \x7b",
  "static inline @T@ __cspace_f( @T@ x ) \x7b if ( x > @T@(0.008856) ) return pow( x, @T@(1.0 / 3.0) ); return @T@(7.787) * x + @T@(16.0 / 116.0); \x7d",
  "static inline @T@ __cspace_fInverse( @T@ t ) \x7b if ( t > @T@(0.206892) ) return t * t * t; return @T@(1.0/7.787) * ( t - @T@(16.0/116.0) ); \x7d",
  "static inline @T@ __cspace_uprime( const @V3@ &XYZ ) \x7b return ( XYZ.x * @T@(4) ) / ( XYZ.x + @T@(15) * XYZ.y + @T@(3) * XYZ.z ); \x7d",
  "static inline @T@ __cspace_vprime( const @V3@ &XYZ ) \x7b return ( XYZ.y * @T@(9) ) / ( XYZ.x + @T@(15) * XYZ.y + @T@(3) * XYZ.z ); \x7d",
  "\x7d // empty namespace",
  "",
  "static inline @M44@ RGBtoXYZ( const Chromaticities &chroma, @T@ Y )",
  "\x7b",
  "    static const @T@ one = @T@(1);",
  "    @T@ X = chroma.white.x * Y / chroma.white.y;",
  "    @T@ Z = (one - chroma.white.x - chroma.white.y) * Y / chroma.white.y;",
  "    @T@ d = chroma.red.x * (chroma.blue.y - chroma.green.y) + chroma.blue.x * (chroma.green.y - chroma.red.y) + chroma.green.x * (chroma.red.y - chroma.blue.y);",
  "    @T@ Sr = (X * (chroma.blue.y - chroma.green.y) - chroma.green.x * (Y * (chroma.blue.y - one) + chroma.blue.y * (X + Z)) + chroma.blue.x * (Y * (chroma.green.y - one) + chroma.green.y * (X + Z))) / d;",
  "    @T@ Sg = (X * (chroma.red.y - chroma.blue.y) + chroma.red.x * (Y * (chroma.blue.y - one) + chroma.blue.y * (X + Z)) - chroma.blue.x * (Y * (chroma.red.y - one) + chroma.red.y * (X + Z))) / d;",
  "    @T@ Sb = (X * (chroma.green.y - chroma.red.y) - chroma.red.x * (Y * (chroma.green.y - one) + chroma.green.y * (X + Z)) + chroma.green.x * (Y * (chroma.red.y - one) + chroma.red.y * (X + Z))) / d;",
  "    @M44@ M;",
  "    M[0][0] = Sr * chroma.red.x;",
  "    M[0][1] = Sr * chroma.red.y;",
  "    M[0][2] = Sr * (1 - chroma.red.x - chroma.red.y);",
  "    M[1][0] = Sg * chroma.green.x;",
  "    M[1][1] = Sg * chroma.green.y;",
  "    M[1][2] = Sg * (1 - chroma.green.x - chroma.green.y);",
  "    M[2][0] = Sb * chroma.blue.x;",
  "    M[2][1] = Sb * chroma.blue.y;",
  "    M[2][2] = Sb * (1 - chroma.blue.x - chroma.blue.y);",
  "    return M;",
  "\x7d",
  "static inline @M44@ XYZtoRGB( const Chromaticities &chroma, @T@ Y ) \x7b return RGBtoXYZ( chroma, Y ).inverse(); \x7d",
  "static inline @V3@ XYZtoLuv( const @V3@ &XYZ, const @V3@ &XYZn )",
  "\x7b",
  "    @T@ Lstar = @T@(116) * __cspace_f( XYZ.y / XYZn.y ) - @T@(16);",
  "    @T@ ustar = @T@(13) * Lstar * ( __cspace_uprime( XYZ ) - __cspace_uprime( XYZn ) );",
  "    @T@ vstar = @T@(13) * Lstar * ( __cspace_vprime( XYZ ) - __cspace_vprime( XYZn ) );",
  "    return @V3@( Lstar, ustar, vstar );",
  "\x7d",
  "static inline @V3@ LuvtoXYZ( const @V3@ &Luv, const @V3@ &XYZn )",
  "\x7b",
  "    @T@ Lstar = Luv.x;",
  "    @T@ ustar = Luv.y;",
  "    @T@ vstar = Luv.z;",
  "    @T@ unprime = __cspace_uprime( XYZn );",
  "    @T@ vnprime = __cspace_vprime( XYZn );",
  "    @T@ fY = (Lstar + @T@(16)) / @T@(116);",
  "    @T@ Y = XYZn.y * __cspace_fInverse( fY );",
  "    @T@ d = @T@(4) * (@T@(13) * Lstar * vnprime + vstar);",
  "    @T@ X = @T@(9) * (@T@(13) * Lstar * unprime + ustar) * Y / d;",
  "    @T@ Z = -( @T@(3) * ustar + @T@(13) * Lstar * ( @T@(-12) + @T@(3) * unprime + @T@(20) * vnprime ) + @T@(20) * vstar ) * Y / d;",
  "    return @V3@( X, Y, Z );",
  "\x7d",
  "static inline @V3@ XYZtoLab( const @V3@ &XYZ, const @V3@ &XYZn )",
  "\x7b",
  "    @T@ tmpY = __cspace_f( XYZ.y / XYZn.y );",
  "    @T@ Lstar = @T@(116) * tmpY - @T@(16);",
  "    @T@ astar = @T@(500) * ( __cspace_f( XYZ.x / XYZn.x ) -  tmpY );",
  "    @T@ bstar = @T@(200) * ( tmpY - __cspace_f( XYZ.z / XYZn.z ) );",
  "    return @V3@( Lstar, astar, bstar );",
  "\x7d",
  "static inline @V3@ LabtoXYZ( const @V3@ &Lab, const @V3@ &XYZn )",
  "\x7b",
  "    @T@ Lstar = Lab.x;",
  "    @T@ astar = Lab.y;",
  "    @T@ bstar = Lab.z;",
  "    @T@ fY = (Lstar + @T@(16)) / @T@(116);",
  "    @T@ fX = astar / @T@(500) + fY;",
  "    @T@ fZ = fY - bstar / @T@(200);",
  "    @T@ X = XYZn.x * __cspace_fInverse( fX );",
  "    @T@ Y = XYZn.y * __cspace_fInverse( fY );",
  "    @T@ Z = XYZn.z * __cspace_fInverse( fZ );",
  "    return @V3@( X, Y, Z );",
  "\x7d",
  ""]

/-- Interpolated look-up in a table. -/
def lookup : List String := [
  "static inline @T@ lookup1D( @T@ table[], int size, @T@ pMin, @T@ pMax, @T@ p )",
  "\x7b",
  "    int iMax = size - 1;",
  "    @T@ r = ( clamp( p, pMin, pMax ) - pMin ) / ( pMax - pMin ) * iMax;",
  "    int i = static_cast<int>( r );",
  "    @T@ u = r - static_cast<@T@>( i );",
  "    @T@ t0 = table[i];",
  "    @T@ t1 = table[std::min( i + 1, iMax )];",
  "    return t0 + u * ( t1 - t0 );",
  "\x7d",
  "\x7d // namespace _ctlcc_",
  ""]

def sections : List (List String) :=
  [banner, printing, classification, mathematics, halves, matrices, colorSpaces, lookup]

def template : String :=
  String.join (sections.flatten.map (· ++ "\n"))

def slots (t : Target) : List (String × String) :=
  let native := t.vectorNamespace
  let suffix := t.precision.nativeSuffix
  [("@T@", t.scalarType), ("@S@", t.precision.mathSuffix), ("@V3@", native ++ "::V3" ++ suffix),
    ("@M33@", native ++ "::M33" ++ suffix), ("@M44@", native ++ "::M44" ++ suffix),
    ("@V2F@", native ++ "::V2f"), ("@V2I@", native ++ "::V2i")]

def text (t : Target) : String :=
  (slots t).foldl (fun text (slot, filling) => text.replace slot filling) template

end ColorLowering.Preamble

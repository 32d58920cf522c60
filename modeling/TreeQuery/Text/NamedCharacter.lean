import TreeQuery.Text.Search

/-!
# Characters with names

The characters that can be written by a name, as the HTML standard lists them.  A name with `=` is
also known without a semicolon after it; a character may need two code points.
-/

namespace TreeQuery.Text

/-- The names in the order of the characters: a word holds the names of one character, and the next
word those of the next one, unless a number between them says which. -/
def namedCharacters : List String := [
  "#9 Tab NewLine #21 excl QUOT=,quot= num dollar percnt AMP=,amp= apos lpar rpar ast,midast plus",
  "comma #2e period sol #3a colon semi LT=,lt= #3c+20d2 nvlt equals #3d+20e5 bne GT=,gt= #3e+20d2",
  "nvgt quest commat #5b lbrack,lsqb bsol rbrack,rsqb Hat UnderBar,lowbar DiacriticalGrave,grave",
  "#66+6a fjlig #7b lbrace,lcub VerticalLine,verbar,vert rbrace,rcub #a0 NonBreakingSpace,nbsp=",
  "iexcl= cent= pound= curren= yen= brvbar= sect= Dot,DoubleDot,die,uml= COPY=,copy= ordf= laquo=",
  "not= shy= REG=,circledR,reg= macr=,strns deg= PlusMinus,plusmn=,pm sup2= sup3=",
  "DiacriticalAcute,acute= micro= para= CenterDot,centerdot,middot= Cedilla,cedil= sup1= ordm=",
  "raquo= frac14= frac12=,half frac34= iquest= Agrave= Aacute= Acirc= Atilde= Auml= Aring=,angst",
  "AElig= Ccedil= Egrave= Eacute= Ecirc= Euml= Igrave= Iacute= Icirc= Iuml= ETH= Ntilde= Ograve=",
  "Oacute= Ocirc= Otilde= Ouml= times= Oslash= Ugrave= Uacute= Ucirc= Uuml= Yacute= THORN= szlig=",
  "agrave= aacute= acirc= atilde= auml= aring= aelig= ccedil= egrave= eacute= ecirc= euml= igrave=",
  "iacute= icirc= iuml= eth= ntilde= ograve= oacute= ocirc= otilde= ouml= div,divide= oslash=",
  "ugrave= uacute= ucirc= uuml= yacute= thorn= yuml= Amacr amacr Abreve abreve Aogon aogon Cacute",
  "cacute Ccirc ccirc Cdot cdot Ccaron ccaron Dcaron dcaron Dstrok dstrok Emacr emacr #116 Edot",
  "edot Eogon eogon Ecaron ecaron Gcirc gcirc Gbreve gbreve Gdot gdot Gcedil #124 Hcirc hcirc",
  "Hstrok hstrok Itilde itilde Imacr imacr #12e Iogon iogon Idot imath,inodot IJlig ijlig Jcirc",
  "jcirc Kcedil kcedil kgreen Lacute lacute Lcedil lcedil Lcaron lcaron Lmidot lmidot Lstrok",
  "lstrok Nacute nacute Ncedil ncedil Ncaron ncaron napos ENG eng Omacr omacr #150 Odblac odblac",
  "OElig oelig Racute racute Rcedil rcedil Rcaron rcaron Sacute sacute Scirc scirc Scedil scedil",
  "Scaron scaron Tcedil tcedil Tcaron tcaron Tstrok tstrok Utilde utilde Umacr umacr Ubreve ubreve",
  "Uring uring Udblac udblac Uogon uogon Wcirc wcirc Ycirc ycirc Yuml Zacute zacute Zdot zdot",
  "Zcaron zcaron #192 fnof #1b5 imped #1f5 gacute #237 jmath #2c6 circ Hacek,caron #2d8",
  "Breve,breve DiacriticalDot,dot ring ogon DiacriticalTilde,tilde DiacriticalDoubleAcute,dblac",
  "#311 DownBreve #391 Alpha Beta Gamma Delta Epsilon Zeta Eta Theta Iota Kappa Lambda Mu Nu Xi",
  "Omicron Pi Rho #3a3 Sigma Tau Upsilon Phi Chi Psi Omega,ohm #3b1 alpha beta gamma delta",
  "epsi,epsilon zeta eta theta iota kappa lambda mu nu xi omicron pi rho sigmaf,sigmav,varsigma",
  "sigma tau upsi,upsilon phi chi psi omega #3d1 thetasym,thetav,vartheta Upsi,upsih #3d5",
  "phiv,straightphi,varphi piv,varpi #3dc Gammad digamma,gammad #3f0 kappav,varkappa rhov,varrho",
  "#3f5 epsiv,straightepsilon,varepsilon backepsilon,bepsi #401 IOcy DJcy GJcy Jukcy DScy Iukcy",
  "YIcy Jsercy LJcy NJcy TSHcy KJcy #40e Ubrcy DZcy Acy Bcy Vcy Gcy Dcy IEcy ZHcy Zcy Icy Jcy Kcy",
  "Lcy Mcy Ncy Ocy Pcy Rcy Scy Tcy Ucy Fcy KHcy TScy CHcy SHcy SHCHcy HARDcy Ycy SOFTcy Ecy YUcy",
  "YAcy acy bcy vcy gcy dcy iecy zhcy zcy icy jcy kcy lcy mcy ncy ocy pcy rcy scy tcy ucy fcy khcy",
  "tscy chcy shcy shchcy hardcy ycy softcy ecy yucy yacy #451 iocy djcy gjcy jukcy dscy iukcy yicy",
  "jsercy ljcy njcy tshcy kjcy #45e ubrcy dzcy #2002 ensp emsp emsp13 emsp14 #2007 numsp puncsp",
  "ThinSpace,thinsp VeryThinSpace,hairsp",
  "NegativeMediumSpace,NegativeThickSpace,NegativeThinSpace,NegativeVeryThinSpace,ZeroWidthSpace",
  "zwnj zwj lrm rlm dash,hyphen #2013 ndash mdash horbar Verbar,Vert #2018 OpenCurlyQuote,lsquo",
  "CloseCurlyQuote,rsquo,rsquor lsquor,sbquo #201c OpenCurlyDoubleQuote,ldquo",
  "CloseCurlyDoubleQuote,rdquo,rdquor bdquo,ldquor #2020 dagger Dagger,ddagger bull,bullet #2025",
  "nldr hellip,mldr #2030 permil pertenk prime Prime tprime backprime,bprime #2039 lsaquo rsaquo",
  "#203e OverBar,oline #2041 caret #2043 hybull frasl #204f bsemi #2057 qprime #205f MediumSpace",
  "#205f+200a ThickSpace NoBreak ApplyFunction,af InvisibleTimes,it InvisibleComma,ic #20ac euro",
  "#20db TripleDot,tdot DotDot #2102 Copf,complexes #2105 incare #210a gscr",
  "HilbertSpace,Hscr,hamilt Hfr,Poincareplane Hopf,quaternions planckh hbar,hslash,planck,plankv",
  "Iscr,imagline Ifr,Im,image,imagpart Laplacetrf,Lscr,lagran ell #2115 Nopf,naturals numero",
  "copysr weierp,wp Popf,primes Qopf,rationals Rscr,realine Re,Rfr,real,realpart Ropf,reals rx",
  "#2122 TRADE,trade #2124 Zopf,integers #2127 mho Zfr,zeetrf iiota #212c Bernoullis,Bscr,bernou",
  "Cayleys,Cfr #212f escr Escr,expectation Fouriertrf,Fscr #2133 Mellintrf,Mscr,phmmat",
  "order,orderof,oscr alefsym,aleph beth gimel daleth #2145 CapitalDifferentialD,DD",
  "DifferentialD,dd ExponentialE,ee,exponentiale ImaginaryI,ii #2153 frac13 frac23 frac15 frac25",
  "frac35 frac45 frac16 frac56 frac18 frac38 frac58 frac78 #2190",
  "LeftArrow,ShortLeftArrow,larr,leftarrow,slarr ShortUpArrow,UpArrow,uarr,uparrow",
  "RightArrow,ShortRightArrow,rarr,rightarrow,srarr DownArrow,ShortDownArrow,darr,downarrow",
  "LeftRightArrow,harr,leftrightarrow UpDownArrow,updownarrow,varr UpperLeftArrow,nwarr,nwarrow",
  "UpperRightArrow,nearr,nearrow LowerRightArrow,searr,searrow LowerLeftArrow,swarr,swarrow",
  "nlarr,nleftarrow nrarr,nrightarrow #219d rarrw,rightsquigarrow #219d+338 nrarrw",
  "Larr,twoheadleftarrow Uarr Rarr,twoheadrightarrow Darr larrtl,leftarrowtail",
  "rarrtl,rightarrowtail LeftTeeArrow,mapstoleft UpTeeArrow,mapstoup RightTeeArrow,map,mapsto",
  "DownTeeArrow,mapstodown #21a9 hookleftarrow,larrhk hookrightarrow,rarrhk larrlp,looparrowleft",
  "looparrowright,rarrlp harrw,leftrightsquigarrow nharr,nleftrightarrow #21b0 Lsh,lsh Rsh,rsh",
  "ldsh rdsh #21b5 crarr cularr,curvearrowleft curarr,curvearrowright #21ba circlearrowleft,olarr",
  "circlearrowright,orarr LeftVector,leftharpoonup,lharu DownLeftVector,leftharpoondown,lhard",
  "RightUpVector,uharr,upharpoonright LeftUpVector,uharl,upharpoonleft",
  "RightVector,rharu,rightharpoonup DownRightVector,rhard,rightharpoondown",
  "RightDownVector,dharr,downharpoonright LeftDownVector,dharl,downharpoonleft",
  "RightArrowLeftArrow,rightleftarrows,rlarr UpArrowDownArrow,udarr",
  "LeftArrowRightArrow,leftrightarrows,lrarr leftleftarrows,llarr upuparrows,uuarr",
  "rightrightarrows,rrarr ddarr,downdownarrows ReverseEquilibrium,leftrightharpoons,lrhar",
  "Equilibrium,rightleftharpoons,rlhar nLeftarrow,nlArr nLeftrightarrow,nhArr nRightarrow,nrArr",
  "DoubleLeftArrow,Leftarrow,lArr DoubleUpArrow,Uparrow,uArr",
  "DoubleRightArrow,Implies,Rightarrow,rArr DoubleDownArrow,Downarrow,dArr",
  "DoubleLeftRightArrow,Leftrightarrow,hArr,iff DoubleUpDownArrow,Updownarrow,vArr nwArr neArr",
  "seArr swArr Lleftarrow,lAarr Rrightarrow,rAarr #21dd zigrarr #21e4 LeftArrowBar,larrb",
  "RightArrowBar,rarrb #21f5 DownArrowUpArrow,duarr #21fd loarr roarr hoarr ForAll,forall",
  "comp,complement PartialD,part #2202+338 npart Exists,exist NotExists,nexist,nexists",
  "empty,emptyset,emptyv,varnothing #2207 Del,nabla Element,in,isin,isinv NotElement,notin,notinva",
  "#220b ReverseElement,SuchThat,ni,niv NotReverseElement,notni,notniva #220f Product,prod",
  "Coproduct,coprod Sum,sum minus MinusPlus,mnplus,mp dotplus,plusdo #2216",
  "Backslash,setminus,setmn,smallsetminus,ssetmn lowast SmallCircle,compfn #221a Sqrt,radic #221d",
  "Proportional,prop,propto,varpropto,vprop infin angrt ang,angle #2220+20d2 nang",
  "angmsd,measuredangle angsph VerticalBar,mid,shortmid,smid NotVerticalBar,nmid,nshortmid,nsmid",
  "DoubleVerticalBar,par,parallel,shortparallel,spar",
  "NotDoubleVerticalBar,npar,nparallel,nshortparallel,nspar and,wedge or,vee cap #2229+fe00 caps",
  "cup #222a+fe00 cups Integral,int Int iiint,tint ContourIntegral,conint,oint",
  "Conint,DoubleContourIntegral Cconint cwint ClockwiseContourIntegral,cwconint",
  "CounterClockwiseContourIntegral,awconint Therefore,there4,therefore Because,becaus,because",
  "ratio Colon,Proportion dotminus,minusd #223a mDDot homtht Tilde,sim,thicksim,thksim #223c+20d2",
  "nvsim backsim,bsim #223d+331 race ac,mstpos #223e+333 acE acd VerticalTilde,wr,wreath",
  "NotTilde,nsim EqualTilde,eqsim,esim #2242+338 NotEqualTilde,nesim TildeEqual,sime,simeq",
  "NotTildeEqual,nsime,nsimeq TildeFullEqual,cong simne NotTildeFullEqual,ncong",
  "TildeTilde,ap,approx,asymp,thickapprox,thkap NotTildeTilde,nap,napprox ape,approxeq apid",
  "#224b+338 napid backcong,bcong CupCap,asympeq #224d+20d2 nvap Bumpeq,HumpDownHump,bump",
  "#224e+338 NotHumpDownHump,nbump HumpEqual,bumpe,bumpeq #224f+338 NotHumpEqual,nbumpe",
  "DotEqual,doteq,esdot #2250+338 nedot doteqdot,eDot efDot,fallingdotseq erDot,risingdotseq",
  "Assign,colone,coloneq ecolon,eqcolon ecir,eqcirc circeq,cire #2259 wedgeq veeeq #225c",
  "triangleq,trie #225f equest,questeq NotEqual,ne Congruent,equiv #2261+20e5 bnequiv",
  "NotCongruent,nequiv #2264 le,leq #2264+20d2 nvle GreaterEqual,ge,geq #2265+20d2 nvge",
  "LessFullEqual,lE,leqq #2266+338 nlE,nleqq GreaterFullEqual,gE,geqq #2267+338",
  "NotGreaterFullEqual,ngE,ngeqq lnE,lneqq #2268+fe00 lvertneqq,lvnE gnE,gneqq #2269+fe00",
  "gvertneqq,gvnE Lt,NestedLessLess,ll #226a+338 NotLessLess,nLtv #226a+20d2 nLt",
  "Gt,NestedGreaterGreater,gg #226b+338 NotGreaterGreater,nGtv #226b+20d2 nGt between,twixt",
  "NotCupCap NotLess,nless,nlt NotGreater,ngt,ngtr NotLessEqual,nle,nleq NotGreaterEqual,nge,ngeq",
  "LessTilde,lesssim,lsim GreaterTilde,gsim,gtrsim NotLessTilde,nlsim NotGreaterTilde,ngsim",
  "LessGreater,lessgtr,lg GreaterLess,gl,gtrless NotLessGreater,ntlg NotGreaterLess,ntgl",
  "Precedes,pr,prec Succeeds,sc,succ PrecedesSlantEqual,prcue,preccurlyeq",
  "SucceedsSlantEqual,sccue,succcurlyeq PrecedesTilde,precsim,prsim SucceedsTilde,scsim,succsim",
  "#227f+338 NotSucceedsTilde NotPrecedes,npr,nprec NotSucceeds,nsc,nsucc sub,subset #2282+20d2",
  "NotSubset,nsubset,vnsub Superset,sup,supset #2283+20d2 NotSuperset,nsupset,vnsup nsub nsup",
  "SubsetEqual,sube,subseteq SupersetEqual,supe,supseteq NotSubsetEqual,nsube,nsubseteq",
  "NotSupersetEqual,nsupe,nsupseteq subne,subsetneq #228a+fe00 varsubsetneq,vsubne supne,supsetneq",
  "#228b+fe00 varsupsetneq,vsupne #228d cupdot UnionPlus,uplus SquareSubset,sqsub,sqsubset",
  "#228f+338 NotSquareSubset SquareSuperset,sqsup,sqsupset #2290+338 NotSquareSuperset",
  "SquareSubsetEqual,sqsube,sqsubseteq SquareSupersetEqual,sqsupe,sqsupseteq",
  "SquareIntersection,sqcap #2293+fe00 sqcaps SquareUnion,sqcup #2294+fe00 sqcups CirclePlus,oplus",
  "CircleMinus,ominus CircleTimes,otimes osol CircleDot,odot circledcirc,ocir circledast,oast",
  "#229d circleddash,odash boxplus,plusb boxminus,minusb boxtimes,timesb dotsquare,sdotb",
  "RightTee,vdash LeftTee,dashv DownTee,top UpTee,bot,bottom,perp #22a7 models",
  "DoubleRightTee,vDash Vdash Vvdash VDash nvdash nvDash nVdash nVDash prurel #22b2",
  "LeftTriangle,vartriangleleft,vltri RightTriangle,vartriangleright,vrtri",
  "LeftTriangleEqual,ltrie,trianglelefteq #22b4+20d2 nvltrie",
  "RightTriangleEqual,rtrie,trianglerighteq #22b5+20d2 nvrtrie origof imof multimap,mumap hercon",
  "intcal,intercal veebar #22bd barvee angrtvb lrtri Wedge,bigwedge,xwedge Vee,bigvee,xvee",
  "Intersection,bigcap,xcap Union,bigcup,xcup Diamond,diam,diamond sdot Star,sstarf",
  "divideontimes,divonx bowtie ltimes rtimes leftthreetimes,lthree rightthreetimes,rthree",
  "backsimeq,bsime curlyvee,cuvee curlywedge,cuwed Sub,Subset Sup,Supset Cap Cup fork,pitchfork",
  "epar lessdot,ltdot gtdot,gtrdot Ll #22d8+338 nLl Gg,ggg #22d9+338 nGg",
  "LessEqualGreater,leg,lesseqgtr #22da+fe00 lesg GreaterEqualLess,gel,gtreqless #22db+fe00 gesl",
  "#22de cuepr,curlyeqprec cuesc,curlyeqsucc NotPrecedesSlantEqual,nprcue",
  "NotSucceedsSlantEqual,nsccue NotSquareSubsetEqual,nsqsube NotSquareSupersetEqual,nsqsupe #22e6",
  "lnsim gnsim precnsim,prnsim scnsim,succnsim NotLeftTriangle,nltri,ntriangleleft",
  "NotRightTriangle,nrtri,ntriangleright NotLeftTriangleEqual,nltrie,ntrianglelefteq",
  "NotRightTriangleEqual,nrtrie,ntrianglerighteq vellip ctdot utdot dtdot disin isinsv isins",
  "isindot #22f5+338 notindot notinvc notinvb #22f9 isinE #22f9+338 notinE nisd xnis nis notnivc",
  "notnivb #2305 barwed,barwedge Barwed,doublebarwedge #2308 LeftCeiling,lceil RightCeiling,rceil",
  "LeftFloor,lfloor RightFloor,rfloor drcrop dlcrop urcrop ulcrop bnot #2312 profline profsurf",
  "#2315 telrec target #231c ulcorn,ulcorner urcorn,urcorner dlcorn,llcorner drcorn,lrcorner #2322",
  "frown,sfrown smile,ssmile #232d cylcty profalar #2336 topbot #233d ovbar #233f solbar #237c",
  "angzarr #23b0 lmoust,lmoustache rmoust,rmoustache #23b4 OverBracket,tbrk UnderBracket,bbrk",
  "bbrktbrk #23dc OverParenthesis UnderParenthesis OverBrace UnderBrace #23e2 trpezium #23e7",
  "elinters #2423 blank #24c8 circledS,oS #2500 HorizontalLine,boxh #2502 boxv #250c boxdr #2510",
  "boxdl #2514 boxur #2518 boxul #251c boxvr #2524 boxvl #252c boxhd #2534 boxhu #253c boxvh #2550",
  "boxH boxV boxdR boxDr boxDR boxdL boxDl boxDL boxuR boxUr boxUR boxuL boxUl boxUL boxvR boxVr",
  "boxVR boxvL boxVl boxVL boxHd boxhD boxHD boxHu boxhU boxHU boxvH boxVh boxVH #2580 uhblk #2584",
  "lhblk #2588 block #2591 blk14 blk12 blk34 #25a1 Square,squ,square #25aa",
  "FilledVerySmallSquare,blacksquare,squarf,squf EmptyVerySmallSquare #25ad rect marker #25b1",
  "fltns #25b3 bigtriangleup,xutri blacktriangle,utrif triangle,utri #25b8",
  "blacktriangleright,rtrif rtri,triangleright #25bd bigtriangledown,xdtri blacktriangledown,dtrif",
  "dtri,triangledown #25c2 blacktriangleleft,ltrif ltri,triangleleft #25ca loz,lozenge cir #25ec",
  "tridot #25ef bigcirc,xcirc #25f8 ultri urtri lltri EmptySmallSquare FilledSmallSquare #2605",
  "bigstar,starf star #260e phone #2640 female #2642 male #2660 spades,spadesuit #2663",
  "clubs,clubsuit #2665 hearts,heartsuit diamondsuit,diams #266a sung #266d flat natur,natural",
  "sharp #2713 check,checkmark #2717 cross #2720 malt,maltese #2736 sext #2758 VerticalSeparator",
  "#2772 lbbrk rbbrk #27c8 bsolhsub suphsol #27e6 LeftDoubleBracket,lobrk RightDoubleBracket,robrk",
  "LeftAngleBracket,lang,langle RightAngleBracket,rang,rangle Lang Rang loang roang #27f5",
  "LongLeftArrow,longleftarrow,xlarr LongRightArrow,longrightarrow,xrarr",
  "LongLeftRightArrow,longleftrightarrow,xharr DoubleLongLeftArrow,Longleftarrow,xlArr",
  "DoubleLongRightArrow,Longrightarrow,xrArr DoubleLongLeftRightArrow,Longleftrightarrow,xhArr",
  "#27fc longmapsto,xmap #27ff dzigrarr #2902 nvlArr nvrArr nvHarr Map #290c lbarr bkarow,rbarr",
  "lBarr dbkarow,rBarr RBarr,drbkarow DDotrahd UpArrowBar DownArrowBar #2916 Rarrtl #2919 latail",
  "ratail lAtail rAtail larrfs rarrfs larrbfs rarrbfs #2923 nwarhk nearhk hksearow,searhk",
  "hkswarow,swarhk nwnear nesear,toea seswar,tosa swnwar #2933 rarrc #2933+338 nrarrc #2935",
  "cudarrr ldca rdca cudarrl larrpl #293c curarrm cularrp #2945 rarrpl #2948 harrcir Uarrocir",
  "lurdshar ldrushar #294e LeftRightVector RightUpDownVector DownLeftRightVector LeftUpDownVector",
  "LeftVectorBar RightVectorBar RightUpVectorBar RightDownVectorBar DownLeftVectorBar",
  "DownRightVectorBar LeftUpVectorBar LeftDownVectorBar LeftTeeVector RightTeeVector",
  "RightUpTeeVector RightDownTeeVector DownLeftTeeVector DownRightTeeVector LeftUpTeeVector",
  "LeftDownTeeVector lHar uHar rHar dHar luruhar ldrdhar ruluhar rdldhar lharul llhard rharul",
  "lrhard UpEquilibrium,udhar ReverseUpEquilibrium,duhar RoundImplies erarr simrarr larrsim",
  "rarrsim rarrap ltlarr #2978 gtrarr subrarr #297b suplarr lfisht rfisht ufisht dfisht #2985",
  "lopar ropar #298b lbrke rbrke lbrkslu rbrksld lbrksld rbrkslu langd rangd lparlt rpargt gtlPar",
  "ltrPar #299a vzigzag #299c vangrt angrtvbd #29a4 ange range dwangle uwangle angmsdaa angmsdab",
  "angmsdac angmsdad angmsdae angmsdaf angmsdag angmsdah bemptyv demptyv cemptyv raemptyv laemptyv",
  "ohbar omid opar #29b9 operp #29bb olcross odsold #29be olcir ofcir olt ogt cirscir cirE solb",
  "bsolb #29c9 boxbox #29cd trisb rtriltri LeftTriangleBar #29cf+338 NotLeftTriangleBar",
  "RightTriangleBar #29d0+338 NotRightTriangleBar #29dc iinfin infintie nvinfin #29e3 eparsl",
  "smeparsl eqvparsl #29eb blacklozenge,lozf #29f4 RuleDelayed #29f6 dsol #2a00 bigodot,xodot",
  "bigoplus,xoplus bigotimes,xotime #2a04 biguplus,xuplus #2a06 bigsqcup,xsqcup #2a0c iiiint,qint",
  "fpartint #2a10 cirfnint awint rppolint scpolint npolint pointint quatint intlarhk #2a22 pluscir",
  "plusacir simplus plusdu plussim plustwo #2a29 mcomma minusdu #2a2d loplus roplus Cross timesd",
  "timesbar #2a33 smashp lotimes rotimes otimesas Otimes odiv triplus triminus tritime",
  "intprod,iprod #2a3f amalg capdot #2a42 ncup ncap capand cupor cupcap capcup cupbrcap capbrcup",
  "cupcup capcap ccups ccaps #2a50 ccupssm #2a53 And Or andand oror orslope andslope #2a5a andv",
  "orv andd ord #2a5f wedbar #2a66 sdote #2a6a simdot #2a6d congdot #2a6d+338 ncongdot easter",
  "apacir apE #2a70+338 napE eplus pluse Esim Colone Equal #2a77 ddotseq,eDDot equivDD ltcir gtcir",
  "ltquest gtquest LessSlantEqual,leqslant,les #2a7d+338 NotLessSlantEqual,nleqslant,nles",
  "GreaterSlantEqual,geqslant,ges #2a7e+338 NotGreaterSlantEqual,ngeqslant,nges lesdot gesdot",
  "lesdoto gesdoto lesdotor gesdotol lap,lessapprox gap,gtrapprox lne,lneq gne,gneq lnap,lnapprox",
  "gnap,gnapprox lEg,lesseqqgtr gEl,gtreqqless lsime gsime lsimg gsiml lgE glE lesges gesles",
  "els,eqslantless egs,eqslantgtr elsdot egsdot el eg #2a9d siml simg simlE simgE LessLess",
  "#2aa1+338 NotNestedLessLess GreaterGreater #2aa2+338 NotNestedGreaterGreater #2aa4 glj gla ltcc",
  "gtcc lescc gescc smt lat smte #2aac+fe00 smtes late #2aad+fe00 lates bumpE",
  "PrecedesEqual,pre,preceq #2aaf+338 NotPrecedesEqual,npre,npreceq SucceedsEqual,sce,succeq",
  "#2ab0+338 NotSucceedsEqual,nsce,nsucceq #2ab3 prE scE precneqq,prnE scnE,succneqq",
  "prap,precapprox scap,succapprox precnapprox,prnap scnap,succnapprox Pr Sc subdot supdot subplus",
  "supplus submult supmult subedot supedot subE,subseteqq #2ac5+338 nsubE,nsubseteqq",
  "supE,supseteqq #2ac6+338 nsupE,nsupseteqq subsim supsim #2acb subnE,subsetneqq #2acb+fe00",
  "varsubsetneqq,vsubnE supnE,supsetneqq #2acc+fe00 varsupsetneqq,vsupnE #2acf csub csup csube",
  "csupe subsup supsub subsub supsup suphsub supdsub forkv topfork mlcp #2ae4 Dashv,DoubleLeftTee",
  "#2ae6 Vdashl Barv vBar vBarv #2aeb Vbar Not bNot rnmid cirmid midcir topcir nhpar parsim #2afd",
  "parsl #2afd+20e5 nparsl #fb00 fflig filig fllig ffilig ffllig #1d49c Ascr #1d49e Cscr Dscr",
  "#1d4a2 Gscr #1d4a5 Jscr Kscr #1d4a9 Nscr Oscr Pscr Qscr #1d4ae Sscr Tscr Uscr Vscr Wscr Xscr",
  "Yscr Zscr ascr bscr cscr dscr #1d4bb fscr #1d4bd hscr iscr jscr kscr lscr mscr nscr #1d4c5 pscr",
  "qscr rscr sscr tscr uscr vscr wscr xscr yscr zscr #1d504 Afr Bfr #1d507 Dfr Efr Ffr Gfr #1d50d",
  "Jfr Kfr Lfr Mfr Nfr Ofr Pfr Qfr #1d516 Sfr Tfr Ufr Vfr Wfr Xfr Yfr #1d51e afr bfr cfr dfr efr",
  "ffr gfr hfr ifr jfr kfr lfr mfr nfr ofr pfr qfr rfr sfr tfr ufr vfr wfr xfr yfr zfr Aopf Bopf",
  "#1d53b Dopf Eopf Fopf Gopf #1d540 Iopf Jopf Kopf Lopf Mopf #1d546 Oopf #1d54a Sopf Topf Uopf",
  "Vopf Wopf Xopf Yopf #1d552 aopf bopf copf dopf eopf fopf gopf hopf iopf jopf kopf lopf mopf",
  "nopf oopf popf qopf ropf sopf topf uopf vopf wopf xopf yopf zopf"]

/-- **A name of a character**: whether it must be followed by a semicolon, and the character. -/
structure NamedCharacter where
  name : List Char
  needsSemicolon : Bool
  characters : List Char
  deriving DecidableEq, Repr

def hexNumber (digits : List Char) : Nat :=
  digits.foldl (fun n c => n * 16 + (if c.isDigit then c.toNat - 48 else c.toNat - 87)) 0

def NamedCharacter.ofEntry (characters entry : List Char) : NamedCharacter :=
  let name := entry.takeWhile Char.isAlphanum
  ⟨name, name == entry, characters⟩

/-- The names that words list, the next character being `next`, with the one it needs after it. -/
def namesFrom (next : Nat) (after : List Char) : List (List Char) → List NamedCharacter
  | [] => []
  | ('#' :: number) :: words =>
    let codes := (splitOn ['+'] number).map hexNumber
    namesFrom (codes.headD 0) (codes.tail.map Char.ofNat) words
  | names :: words =>
    (splitOn [','] names).map (NamedCharacter.ofEntry (Char.ofNat next :: after)) ++
      namesFrom (next + 1) [] words

def characterNames : List NamedCharacter :=
  namesFrom 0 [] (namedCharacters.flatMap fun l => splitOn [' '] l.toList)

/-- The character with a name that is followed by a semicolon. -/
def closedName? (name : List Char) : Option (List Char) :=
  (characterNames.find? (·.name == name)).map (·.characters)

/-- The character with a name that is not followed by a semicolon. -/
def openName? (name : List Char) : Option (List Char) :=
  (characterNames.find? fun n => !n.needsSemicolon && n.name == name).map (·.characters)

end TreeQuery.Text
